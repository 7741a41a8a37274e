import Inlay.Proofs.Beside

namespace Inlay

namespace Disk

variable {part : Location → Bool} {d d' : Disk} {here l : Location} {path name : Path} {extension : String}
  {stack : List Standing}

/-- What stops the walk is a link of the part: met under the path of the directory that it is in, it leads
nowhere, or to a directory (one that the walk stands in, or that may not be read). -/
def StopsAtLink (d : Disk) (part : Location → Bool) (fault : WalkError) : Prop :=
  ∃ path here name target, (fault.path? = some (Path.join path name) ∨ fault = .opening .notPermitted) ∧
    d.locate path = .ok here ∧ part (here ++ [name]) = true ∧ Path.isHidden name = true ∧
    d.entry? (here ++ [name]) = some (.link target) ∧
    ∀ l, d.locate (Path.join path name) = .ok l → d.isDirectoryAt l = true

theorem meet_eq_error {e : Entry} {fault : WalkError} (h : d.meet stack here path name e = .error fault) :
    (fault.path? = some path ∨ fault = .opening .notPermitted) ∧ (∃ target, e = .link target) ∧
      ∀ l, d.locate path = .ok l → d.isDirectoryAt l = true := by
  unfold meet at h
  split at h
  · cases h
  · cases h
  · cases h
  · next target =>
      split at h
      · next hl =>
          cases h
          refine ⟨.inl rfl, ⟨target, rfl⟩, fun l hl' => ?_⟩
          cases hl.symm.trans hl'
      · next l hl =>
          split at h
          · next hdir =>
              have hleads : ∀ l', d.locate path = .ok l' → d.isDirectoryAt l' = true := by
                intro l' hl'
                cases hl.symm.trans hl'
                exact hdir
              split at h
              · cases h
                exact ⟨.inr rfl, ⟨target, rfl⟩, hleads⟩
              · split at h
                · cases h
                  exact ⟨.inl rfl, ⟨target, rfl⟩, hleads⟩
                · cases h
          · cases h

theorem visitEntry_of_part (hpart : IsHiddenPart part) (hhere : part here = false) (hl : d.locate path = .ok here)
    {c : Path × Entry} (hc : c ∈ d.children here) (hp : part (here ++ [c.1]) = true) :
    d.visitEntry extension stack path here c = .ok [] ∨
      ∃ fault, d.visitEntry extension stack path here c = .error fault ∧ d.StopsAtLink part fault := by
  have hhidden := hpart.hidden here c.1 hhere hp
  unfold visitEntry
  cases hm : d.meet stack here (Path.join path c.1) c.1 c.2 with
  | error fault =>
      obtain ⟨hpath, ⟨target, htarget⟩, hleads⟩ := meet_eq_error hm
      have hentry := (entry?_of_mem_children hc).2
      rw [htarget] at hentry
      exact .inr ⟨fault, rfl, path, here, c.1, target, hpath, hl, hp, hhidden, hentry, hleads⟩
  | ok found => exact .inl (if_pos hhidden)

namespace SameOutside

theorem beside (h : SameOutside part d d') (hnamed : d.IsNamed) (extension : String) :
    Beside part d d' extension (d.StopsAtLink part) (d'.StopsAtLink part) (part · = false) where
  same := h.sameApart
  isNamed := hnamed
  isBeside := by
    refine ⟨fun l hl => hl, fun l name _ hname _ => hname, fun l name target _ => h.link l name target, ?_⟩
    intro l name target n l' _ hname he hleads _
    exact (h.link l name target hname he).of_leads h.isHiddenPart.below hleads
  skips stack path here hhere hl c hc hp := visitEntry_of_part h.isHiddenPart hhere hl hc hp
  skips' stack path here hhere hl c hc hp := visitEntry_of_part h.isHiddenPart hhere hl hc hp

theorem files (h : SameOutside part d d') (hnamed : d.IsNamed) {directory : Path}
    (havoids : d.Avoids part (d.start directory) (Path.steps directory)) (extension : String) :
    Agree (d.StopsAtLink part) (d'.StopsAtLink part) (d.files directory extension) (d'.files directory extension) :=
  (h.beside hnamed extension).files havoids fun _ hl _ => Misses.outside havoids h.isHiddenPart.below hl

theorem of_no_link (hpart : IsHiddenPart part) (hlink : ∀ l target, d.entry? l ≠ some (.link target)) :
    SameOutside part d d :=
  ⟨hpart, fun _ _ => rfl, rfl, rfl, fun _ _ target _ he => absurd he (hlink _ target)⟩

theorem put (h : SameOutside part d d') (hl : part l = true) (e : Entry) : SameOutside part d (d'.put l e) := by
  refine ⟨h.isHiddenPart, fun l' hl' => ?_, h.working, h.privileged, h.link⟩
  have hne : l' ≠ l := by
    rintro rfl
    rw [hl] at hl'
    cases hl'
  rw [entry?_put_of_ne e hne, h.entry l' hl']

end SameOutside

theorem entry?_ne_link_of_entries (h : ∀ e ∈ d.entries.entries, ∀ target, e.2 ≠ .link target) (l : Location)
    (target : Path) : d.entry? l ≠ some (.link target) := by
  intro he
  unfold entry? at he
  split at he
  · cases he
  · exact h _ (Table.mem_of_find he) target rfl

end Disk

/-- Two disks that differ in hidden entries only, to which no link leads from elsewhere: a directory has the
same listing on both, unless one of the walks stops at a hidden link. -/
theorem listing_same_or_stopped {part : Location → Bool} {d d' : Disk} (h : Disk.SameOutside part d d')
    (hnamed : d.IsNamed) {directory : Path}
    (havoids : d.Avoids part (d.start directory) (Path.steps directory)) (extension : String) :
    listFiles d' directory extension = listFiles d directory extension ∨
      (∃ fault, listFiles d directory extension = .error (.readFailure (fault.path?.getD directory) (.walk fault)) ∧
        d.StopsAtLink part fault) ∨
      ∃ fault, listFiles d' directory extension = .error (.readFailure (fault.path?.getD directory) (.walk fault)) ∧
        d'.StopsAtLink part fault := by
  unfold listFiles
  obtain heq | ⟨fault, hfault, hstops⟩ | ⟨fault, hfault, hstops⟩ := h.files hnamed havoids extension
  · rw [heq]
    exact .inl rfl
  · rw [hfault]
    exact .inr (.inl ⟨fault, rfl, hstops⟩)
  · rw [hfault]
    exact .inr (.inr ⟨fault, rfl, hstops⟩)

namespace Disk

def single : Disk :=
  { entries := ⟨[(["p"], .directory 0o755), (["p", "a.fusion"], .file 0o644 [])], by decide⟩
    workingDirectory := [] }

def dangling : Disk := single.put ["p", ".x"] (.link "nowhere")

def concealed : Disk := (single.put ["p", ".git"] (.directory 0o755)).put ["p", ".git", "b.fusion"] (.file 0o644 [])

theorem readDirectory_p {d : Disk} {mode : Nat} (hstart : d.workingDirectory = [])
    (hp : d.entry? ["p"] = some (.directory mode)) (hgrants : d.grantsAt .read ["p"] = true) :
    d.readDirectory "p" = .ok ["p"] := by
  have hsteps : Path.steps "p" = [("p" : Path)] := by decide
  have hstart' : d.start "p" = [] := by
    rw [start, hstart]
    rfl
  refine readDirectory_eq_ok.2 ⟨locate_eq_ok.2 ⟨rfl, 0, by decide, ?_⟩, hgrants⟩
  rw [hsteps, hstart']
  exact .of_move (admits_root d "p") (.enter (by decide) hp fun _ h => Entry.noConfusion h)

theorem files_p {d : Disk} {mode : Nat} (hstart : d.workingDirectory = [])
    (hp : d.entry? ["p"] = some (.directory mode)) (hgrants : d.grantsAt .read ["p"] = true) :
    d.files "p" "fusion" =
      ((d.children ["p"]).mapM (d.visitEntry "fusion" [⟨"p", ["p"]⟩] "p" ["p"])).map List.flatten := by
  have hread := readDirectory_p hstart hp hgrants
  have hdir : d.isDirectoryAt ["p"] = true := by
    rw [isDirectoryAt, hp]
    rfl
  rw [files, (readDirectory_eq_ok.1 hread).1]
  dsimp only
  rw [if_pos hdir, if_neg (by simp [hgrants]), visit_eq, hread]

theorem locate_dangling : dangling.locate "p/.x" = .error .noEntry := by
  have hsteps : Path.steps "p/.x" = [("p" : Path), ".x"] := by decide
  have htarget : Path.steps "nowhere" = [("nowhere" : Path)] := by decide
  have hp (step : Path) : dangling.Admits ["p"] step := .of_search (by decide) (by decide) step
  have hdir : Move dangling [] "p" 0 ["p"] [] := .enter (by decide) rfl nofun
  have hname : IsName ".x" := by decide
  have haim : ("nowhere" : Path) ≠ [] := by decide
  have hlink : Move dangling ["p"] ".x" 1 ["p"] (Path.steps "nowhere") := .through hname rfl haim
  have hmissing : Stops dangling 39 ["p"] "nowhere" .noEntry := .missing (hp _) (by decide) rfl
  change dangling.follow (0 + (1 + 39)) [] (Path.steps "p/.x") = _
  rw [hsteps, hdir.follow_eq (admits_root _ _), List.nil_append, hlink.follow_eq (hp _), htarget]
  exact hmissing.follow_eq []

theorem files_dangling : dangling.files "p" "fusion" = .error (.io "p/.x" .noEntry) := by
  have hchildren : dangling.children ["p"] =
      ([(".x", .link "nowhere"), ("a.fusion", .file 0o644 [])] : List (Path × Entry)) := rfl
  have hmeet : dangling.meet [⟨"p", ["p"]⟩] ["p"] "p/.x" ".x" (.link "nowhere") = .error (.io "p/.x" .noEntry) := by
    rw [meet, locate_dangling]
  have hentry : dangling.visitEntry "fusion" [⟨"p", ["p"]⟩] "p" ["p"] (".x", .link "nowhere") =
      .error (.io "p/.x" .noEntry) := visitEntry_of_meet_error hmeet
  rw [files_p rfl rfl (by decide), hchildren, List.mapM_cons, hentry]
  rfl

theorem files_single : single.files "p" "fusion" = .ok ["p/a.fusion"] := by
  rw [files_p rfl rfl (by decide)]
  rfl

theorem sameOutside_single : SameOutside (hiddenBelow ["p"]) single single :=
  .of_no_link (isHiddenPart_hiddenBelow _) (entry?_ne_link_of_entries (by simp [single]))

theorem avoids_single : single.Avoids (hiddenBelow ["p"]) (single.start "p") (Path.steps "p") := by
  have hsteps : Path.steps "p" = [("p" : Path)] := by decide
  rw [hsteps]
  exact (sameOutside_single.beside (by decide) "fusion").isBeside.avoids_name rfl (by decide)

end Disk

/-- A hidden link that leads nowhere makes the difference. -/
theorem hidden_link_stops_listing :
    Disk.SameOutside (Disk.hiddenBelow ["p"]) .single .dangling ∧
      Disk.single.Avoids (Disk.hiddenBelow ["p"]) (Disk.single.start "p") (Path.steps "p") ∧
      listFiles .single "p" "fusion" = .ok ["p/a.fusion"] ∧
      listFiles .dangling "p" "fusion" = .error (.readFailure "p/.x" (.walk (.io "p/.x" .noEntry))) := by
  refine ⟨Disk.sameOutside_single.put rfl _, Disk.avoids_single, ?_, ?_⟩
  · rw [listFiles, Disk.files_single]
  · rw [listFiles, Disk.files_dangling]
    rfl

/-- A hidden directory does not matter. -/
theorem concealed_listed_as_single :
    Disk.SameOutside (Disk.hiddenBelow ["p"]) .single .concealed ∧
      Disk.concealed.entry? ["p", ".git", "b.fusion"] = some (.file 0o644 []) ∧
      listFiles .concealed "p" "fusion" = .ok ["p/a.fusion"] := by
  have hsame : Disk.SameOutside (Disk.hiddenBelow ["p"]) .single .concealed :=
    (Disk.sameOutside_single.put rfl _).put rfl _
  have hnamed : Disk.single.IsNamed := by decide
  have hsingle : listFiles .single "p" "fusion" = .ok ["p/a.fusion"] := by rw [listFiles, Disk.files_single]
  refine ⟨hsame, rfl, ?_⟩
  obtain heq | ⟨fault, hfault, -⟩ | ⟨fault, -, hstops⟩ :=
    listing_same_or_stopped hsame hnamed Disk.avoids_single "fusion"
  · rw [heq, hsingle]
  · rw [hsingle] at hfault
    cases hfault
  · obtain ⟨_, here, name, target, -, -, -, -, he, -⟩ := hstops
    have hentries : Disk.concealed.entries.entries = ([(["p"], .directory 0o755), (["p", ".git"], .directory 0o755),
        (["p", ".git", "b.fusion"], .file 0o644 []), (["p", "a.fusion"], .file 0o644 [])] : List (Location × Entry)) := rfl
    exact absurd he (Disk.entry?_ne_link_of_entries (by simp [hentries]) _ target)

end Inlay
