import Inlay.Proofs.Replace
import Inlay.Proofs.Result
import Mathlib.Data.List.Basic

namespace Inlay

namespace Path

variable {path name : Path}

theorem splitSlash_ne_nil (path : Path) : splitSlash path ≠ [] := by
  cases path with
  | nil => simp [splitSlash]
  | cons b bs =>
      rw [splitSlash]
      split
      · simp
      · split <;> simp

theorem splitSlash_of_no_slash (h : slash ∉ path) : splitSlash path = [path] := by
  induction path with
  | nil => rfl
  | cons b bs ih =>
      obtain ⟨hb, hbs⟩ := not_or.1 (List.mem_cons.not.1 h)
      rw [splitSlash, if_neg (Ne.symm hb), ih hbs]

theorem splitSlash_append_slash (path rest : Path) :
    splitSlash (path ++ slash :: rest) = splitSlash path ++ splitSlash rest := by
  induction path with
  | nil => rfl
  | cons b bs ih =>
      rw [List.cons_append, splitSlash, splitSlash, ih]
      by_cases hb : b = slash
      · rw [if_pos hb, if_pos hb, List.cons_append]
      · rw [if_neg hb, if_neg hb]
        cases hbs : splitSlash bs with
        | nil => exact absurd hbs (splitSlash_ne_nil bs)
        | cons word words => rfl

def IsComponent (name : Path) : Prop := name ≠ [] ∧ slash ∉ name ∧ 0 ∉ name

instance (name : Path) : Decidable (IsComponent name) := inferInstanceAs (Decidable (_ ∧ _ ∧ _))

theorem IsComponent.isAbsolute_eq_false (h : IsComponent name) : isAbsolute name = false := by
  obtain ⟨-, hslash, -⟩ := h
  unfold isAbsolute
  cases name with
  | nil => rfl
  | cons b bs => simpa using fun hb : b = slash => hslash (hb ▸ List.mem_cons_self)

theorem exists_join (hpath : path ≠ []) (hname : IsComponent name) :
    ∃ front, join path name = front ++ slash :: name ∧ (path = front ∨ path = front ++ [slash]) := by
  have hempty : path.isEmpty = false := by simpa using hpath
  rw [join, hname.isAbsolute_eq_false, hempty]
  cases hslash : endsInSlash path with
  | true =>
      have hlast : path.getLast? = some slash := by simpa [endsInSlash] using hslash
      obtain ⟨front, hfront⟩ := List.getLast?_eq_some_iff.1 hlast
      exact ⟨front, by simp [hfront], .inr hfront⟩
  | false => exact ⟨path, by simp, .inl rfl⟩

theorem names_join (hpath : path ≠ []) (hname : IsComponent name) :
    names (join path name) = names path ++ [name] := by
  obtain ⟨front, hjoin, hfront⟩ := exists_join hpath hname
  have hsplit : splitSlash name = [name] := splitSlash_of_no_slash hname.2.1
  have hpathNames : names path = (splitSlash front).filter (!·.isEmpty) := by
    obtain hfront | hfront := hfront
    · rw [names, hfront]
    · rw [names, hfront, splitSlash_append_slash]
      simp [splitSlash]
  rw [hpathNames, names, hjoin, splitSlash_append_slash, hsplit]
  simp [hname.1]

theorem endsInSlash_join (hpath : path ≠ []) (hname : IsComponent name) :
    endsInSlash (join path name) = false := by
  obtain ⟨front, hjoin, -⟩ := exists_join hpath hname
  obtain ⟨init, last, hlast⟩ := (List.eq_nil_or_concat name).resolve_left hname.1
  rw [List.concat_eq_append] at hlast
  rw [endsInSlash, hjoin, hlast, ← List.cons_append, ← List.append_assoc, List.getLast?_concat]
  simpa using fun h : last = slash => hname.2.1 (by simp [hlast, h])

theorem isAbsolute_join (hpath : path ≠ []) (hname : IsComponent name) :
    isAbsolute (join path name) = isAbsolute path := by
  obtain ⟨front, hjoin, hfront⟩ := exists_join hpath hname
  rw [isAbsolute, hjoin, isAbsolute]
  cases front with
  | nil =>
      obtain hfront | hfront := hfront
      · exact absurd hfront hpath
      · simp [hfront]
  | cons b front => obtain hfront | hfront := hfront <;> simp [hfront]

theorem extension?_join (hpath : path ≠ []) (hname : IsComponent name) (hdots : name ≠ here ∧ name ≠ above) :
    extension? (join path name) = extensionOf? name := by
  rw [extension?, fileName?, names_join hpath hname]
  simp [hdots.1, hdots.2, Option.filter]

theorem steps_join (hpath : path ≠ []) (hname : IsComponent name) :
    steps (join path name) = names path ++ [name] := by
  rw [steps, endsInSlash_join hpath hname, names_join hpath hname]
  simp

end Path

namespace Disk

variable {d : Disk} {path : Path} {extension : String} {here : Location} {stack : List Standing} {listed : List Path}

def IsNamed (d : Disk) : Prop := ∀ l ∈ d.entries.keys, ∀ name ∈ l, IsName name ∧ Path.IsComponent name

instance (d : Disk) : Decidable d.IsNamed := inferInstanceAs (Decidable (∀ l ∈ d.entries.keys, ∀ name ∈ l, _))

theorem checkPath_eq_ok (h : checkPath path = .ok ()) :
    0 ∉ path ∧ path ≠ [] ∧ path.length ≤ maxPathBytes := by
  unfold checkPath at h
  split at h
  · cases h
  · next hnul =>
      split at h
      · cases h
      · next hne =>
          split at h
          · cases h
          · next hsize => exact ⟨by simpa using hnul, hne, Nat.not_lt.1 hsize⟩

theorem checkPath_join {name : Path} (h : checkPath path = .ok ()) (hname : Path.IsComponent name) :
    Path.join path name ≠ [] ∧
      (checkPath (Path.join path name) = .ok () ∨ checkPath (Path.join path name) = .error .nameTooLong) := by
  obtain ⟨hnul, hne, -⟩ := checkPath_eq_ok h
  obtain ⟨front, hjoin, hfront⟩ := Path.exists_join hne hname
  have hjoinNe : Path.join path name ≠ [] := fun hempty => by simp [hempty] at hjoin
  have hjoinNul : (Path.join path name).contains 0 = false := by
    have hfrontNul : (0 : UInt8) ∉ front := by
      obtain hfront | hfront := hfront
      · rwa [hfront] at hnul
      · rw [hfront] at hnul
        exact fun h => hnul (List.mem_append_left _ h)
    have hslash : (0 : UInt8) ≠ Path.slash := by decide
    simp [hjoin, hfrontNul, hname.2.2, hslash]
  refine ⟨hjoinNe, ?_⟩
  unfold checkPath
  rw [hjoinNul, if_neg (by simp), if_neg hjoinNe]
  split
  · exact .inr rfl
  · exact .inl rfl

theorem entry?_of_mem_children {c : Path × Entry} (h : c ∈ d.children here) :
    here ++ [c.1] ∈ d.entries.keys ∧ d.entry? (here ++ [c.1]) = some c.2 := by
  obtain ⟨⟨key, e⟩, hkey, hc⟩ := List.mem_filterMap.1 h
  dsimp only at hc
  split at hc
  · next name hname =>
      split at hc
      · next hdrop =>
          cases hc
          obtain rfl : key = here ++ [name] := by
            rw [← hdrop]
            exact (List.dropLast_append_getLast? name hname).symm
          refine ⟨List.mem_map.2 ⟨_, hkey, rfl⟩, ?_⟩
          unfold entry?
          rw [if_neg (by simp)]
          exact Table.find_of_mem d.entries.increasing hkey
      · cases hc
  · cases hc

/-- The names of a path that leads to a directory lead there too, without a slash at the end. -/
theorem leads_names {n : Nat} {start : Location} (h : Leads d n start (Path.steps path) here) :
    Leads d n start (Path.names path) here := by
  unfold Path.steps at h
  split at h
  · obtain ⟨a, b, mid, rfl, hnames, hdot⟩ := h.of_append
    generalize hname : ([] : Path) = name at hdot
    cases hdot with
    | step _ hmove hrest =>
        cases hmove with
        | stay =>
            cases hrest
            exact hnames
        | up => exact absurd hname (by decide)
        | enter hstep => exact absurd hname.symm hstep.2.2.2
        | through hstep => exact absurd hname.symm hstep.2.2.2
  · rwa [List.append_nil] at h

theorem locate_join {name : Path} {e : Entry} (h : d.locate path = .ok here)
    (hdir : d.isDirectoryAt here ∧ d.grantsAt .search here) (hname : IsName name ∧ Path.IsComponent name) (he : d.entry? (here ++ [name]) = some e)
    (hlink : ∀ target, e ≠ .link target) (htext : checkPath (Path.join path name) = .ok ()) :
    d.locate (Path.join path name) = .ok (here ++ [name]) := by
  obtain ⟨hpath, n, hn, hleads⟩ := locate_eq_ok.1 h
  obtain ⟨-, hne, -⟩ := checkPath_eq_ok hpath
  have hstart : d.start (Path.join path name) = d.start path := by
    rw [start, Path.isAbsolute_join hne hname.2, start]
  refine locate_eq_ok.2 ⟨htext, n, hn, ?_⟩
  rw [hstart, Path.steps_join hne hname.2]
  exact (leads_names hleads).append (.of_move (.of_search hdir.1 hdir.2 name) (.enter hname.1 he hlink))

theorem locate_join_of_not_search {name : Path} (h : d.locate path = .ok here) (hdir : d.isDirectoryAt here)
    (hsearch : d.grantsAt .search here = false) (hname : IsName name ∧ Path.IsComponent name)
    (htext : checkPath (Path.join path name) = .ok ()) : d.locate (Path.join path name) = .error .notPermitted := by
  obtain ⟨hpath, n, hn, hleads⟩ := locate_eq_ok.1 h
  obtain ⟨-, hne, -⟩ := checkPath_eq_ok hpath
  obtain ⟨links, hlinks⟩ := Nat.exists_eq_add_of_le hn
  have hstart : d.start (Path.join path name) = d.start path := by
    rw [start, Path.isAbsolute_join hne hname.2, start]
  have hfollow := (leads_names hleads).follow_append links [name]
  rw [follow, hdir, hsearch] at hfollow
  simp only [Bool.not_true, Bool.false_eq_true, if_false, hname.1.2.2.2, Bool.not_false, if_true] at hfollow
  rw [locate, htext, hstart, Path.steps_join hne hname.2, hlinks]
  exact hfollow

theorem readDirectory_eq_ok {l : Location} :
    d.readDirectory path = .ok l ↔ d.locate path = .ok l ∧ d.grantsAt .read l := by
  unfold readDirectory
  cases d.locate path with
  | error cause => exact ⟨nofun, nofun⟩
  | ok l' =>
      change (if d.grantsAt .read l' then Except.ok l' else _) = Except.ok l ↔ _
      split
      · next hread =>
          constructor
          · intro h
            cases h
            exact ⟨rfl, hread⟩
          · rintro ⟨h, -⟩
            cases h
            rfl
      · next hread =>
          refine ⟨nofun, ?_⟩
          rintro ⟨h, hread'⟩
          cases h
          exact absurd hread' hread

/-- What a walk lists below a directory: its files, and what it lists below its directories. -/
theorem exists_of_mem_visit (h : d.visit extension stack path here = .ok listed) {f : Path} (hf : f ∈ listed) :
    ∃ c ∈ d.children here, ∃ found, d.meet stack here (Path.join path c.1) c.1 c.2 = .ok found ∧
      Path.isHidden c.1 = false ∧
        (found = .file ∧ f = Path.join path c.1 ∧ Path.extension? f = some (Text.encode extension) ∨
          ∃ l below, found = .directory l ∧ f ∈ below ∧
            d.visit extension (⟨Path.join path c.1, l⟩ :: stack) (Path.join path c.1) l = .ok below) := by
  rw [visit] at h
  cases hl : d.readDirectory path with
  | error cause =>
      rw [hl] at h
      cases h
  | ok l =>
      rw [hl] at h
      dsimp only [bind, Except.bind] at h
      generalize hfound : List.mapM (m := Except WalkError) _ (d.children here).attach = result at h
      cases result with
      | error fault => cases h
      | ok found =>
          cases h
          obtain ⟨part, hpart, hf⟩ := List.mem_flatten.1 hf
          obtain ⟨c, -, hc⟩ := exists_of_mem_mapM hfound hpart
          refine ⟨c.1, c.2, ?_⟩
          split at hc
          · cases hc
          · next found hm =>
              split at hc
              · cases hc
                cases hf
              · next hhidden =>
                  refine ⟨found, hm, by simpa using hhidden, ?_⟩
                  split at hc
                  · cases hc
                    split at hf
                    · next hext =>
                        obtain rfl := List.mem_singleton.1 hf
                        exact .inl ⟨rfl, rfl, hext⟩
                    · cases hf
                  · cases hc
                    cases hf
                  · exact .inr ⟨_, part, rfl, hf, hc⟩

theorem locate_of_visit (h : d.visit extension stack path here = .ok listed) : ∃ l, d.locate path = .ok l := by
  rw [visit] at h
  obtain ⟨l, hl, -⟩ := bind_eq_ok.1 h
  exact ⟨l, (readDirectory_eq_ok.1 hl).1⟩

theorem meet_eq_file {name : Path} {e : Entry} (h : d.meet stack here path name e = .ok .file) :
    (∃ mode content, e = .file mode content) ∨ d.isFile path = true := by
  unfold meet at h
  split at h
  · next mode content => exact .inl ⟨mode, content, rfl⟩
  · cases h
  · cases h
  · split at h
    · cases h
    · next l hl =>
        split at h
        · split at h
          · cases h
          · split at h <;> cases h
        · split at h
          · next hfile =>
              obtain ⟨e, he, hfile⟩ := (Option.any_eq_true _ _).1 hfile
              cases e with
              | file mode content => exact .inr (isFile_iff.2 ⟨l, hl, mode, content, he⟩)
              | directory | link | device => cases hfile
          · cases h

theorem meet_eq_directory {name : Path} {e : Entry} {l : Location}
    (h : d.meet stack here path name e = .ok (.directory l)) :
    (l = here ++ [name] ∧ ∃ mode, e = .directory mode) ∨
      d.locate path = .ok l ∧ d.isDirectoryAt l ∧ d.grantsAt .read l := by
  unfold meet at h
  split at h
  · cases h
  · next mode =>
      cases h
      exact .inl ⟨rfl, mode, rfl⟩
  · cases h
  · split at h
    · cases h
    · next l' hl =>
        split at h
        · next hdir =>
            split at h
            · cases h
            · next hread =>
                split at h
                · cases h
                · cases h
                  exact .inr ⟨hl, hdir, by simpa using hread⟩
        · split at h <;> cases h

theorem visit_of_files {l : Location} (hl : d.readDirectory path = .ok l)
    (h : ∀ c ∈ d.children here, d.meet stack here (Path.join path c.1) c.1 c.2 = .ok .file ∧
      Path.isHidden c.1 = false ∧ Path.extension? (Path.join path c.1) = some (Text.encode extension)) :
    d.visit extension stack path here = .ok ((d.children here).map fun c => Path.join path c.1) := by
  rw [visit, hl]
  dsimp only [bind, Except.bind]
  rw [mapM_eq_ok (g := fun c => [Path.join path c.1.1])]
  · change Except.ok (List.flatten _) = _
    congr 1
    have hval := congrArg (List.map fun c => Path.join path c.1) (List.attach_map_subtype_val (d.children here))
    rw [List.map_map] at hval
    rwa [← List.flatMap_def, ← List.map_eq_flatMap]
  · intro c _
    obtain ⟨hmeet, hhidden, hextension⟩ := h c.1 c.2
    split
    · next hm =>
        rw [hmeet] at hm
        cases hm
    · next found hm =>
        rw [hmeet] at hm
        cases hm
        rw [if_neg (by simp [hhidden])]
        dsimp only
        rw [if_pos hextension]

theorem directory_of_meet {name : Path} {e : Entry} {l : Location} (hl : d.locate path = .ok here)
    (hdir : d.isDirectoryAt here) (hname : IsName name ∧ Path.IsComponent name)
    (hentry : d.entry? (here ++ [name]) = some e)
    (h : d.meet stack here (Path.join path name) name e = .ok (.directory l)) :
    d.isDirectoryAt l = true ∧ ∀ l', d.locate (Path.join path name) = .ok l' → l' = l := by
  obtain ⟨rfl, mode, rfl⟩ | ⟨hl', hdir', -⟩ := meet_eq_directory h
  · constructor
    · rw [isDirectoryAt, hentry]
      rfl
    · intro l' hl'
      have htext := (locate_eq_ok.1 hl').1
      cases hsearch : d.grantsAt .search here with
      | false =>
          rw [locate_join_of_not_search hl hdir hsearch hname htext] at hl'
          cases hl'
      | true =>
          rw [locate_join hl ⟨hdir, hsearch⟩ hname hentry (by simp) htext] at hl'
          exact (Except.ok.inj hl').symm
  · refine ⟨hdir', fun l' h => ?_⟩
    rw [hl'] at h
    exact (Except.ok.inj h).symm

/-- The path is not followed to its end: it is too long, or a directory on the way may not be searched. -/
def IsBarred (d : Disk) (path : Path) : Prop :=
  d.locate path = .error .nameTooLong ∨ d.locate path = .error .notPermitted

theorem isBarred_iff : d.IsBarred path ↔
    ∃ cause, (cause = .nameTooLong ∨ cause = .notPermitted) ∧ d.locate path = .error cause := by
  constructor
  · rintro (h | h)
    · exact ⟨_, .inl rfl, h⟩
    · exact ⟨_, .inr rfl, h⟩
  · rintro ⟨_, rfl | rfl, h⟩
    · exact .inl h
    · exact .inr h

theorem isBarred_of_checkPath (h : checkPath path = .error .nameTooLong) : d.IsBarred path := by
  refine .inl ?_
  rw [locate, h]
  rfl

/-- A path of a listing leads to a regular file, or is not followed to its end. -/
def IsListable (d : Disk) (path : Path) : Prop := d.isFile path = true ∨ path ≠ [] ∧ d.IsBarred path

theorem isListable_of_mem_visit (hnamed : d.IsNamed) (hdir : d.isDirectoryAt here)
    (hpath : ∀ l, d.locate path = .ok l → l = here) (h : d.visit extension stack path here = .ok listed) :
    ∀ f ∈ listed, d.IsListable f := by
  induction hroom : d.room stack here using Nat.strong_induction_on generalizing stack path here listed with
  | _ room ih =>
    intro f hf
    obtain ⟨l, hl⟩ := locate_of_visit h
    obtain rfl := hpath l hl
    obtain ⟨c, hc, found, hmeet, -, hfound⟩ := exists_of_mem_visit h hf
    obtain ⟨hkey, hentry⟩ := entry?_of_mem_children hc
    have hname := hnamed _ hkey c.1 (by simp)
    obtain ⟨hne, htext⟩ := checkPath_join (locate_eq_ok.1 hl).1 hname.2
    obtain ⟨rfl, rfl, -⟩ | ⟨l', below, rfl, hf, hbelow⟩ := hfound
    · obtain ⟨mode, content, hc⟩ | hfile := meet_eq_file hmeet
      · rw [hc] at hentry
        obtain htext | htext := htext
        · cases hsearch : d.grantsAt .search l with
          | false => exact .inr ⟨hne, .inr (locate_join_of_not_search hl hdir hsearch hname htext)⟩
          | true =>
              have hl' := locate_join hl ⟨hdir, hsearch⟩ hname hentry (by simp) htext
              exact .inl (isFile_iff.2 ⟨_, hl', mode, content, hentry⟩)
        · exact .inr ⟨hne, isBarred_of_checkPath htext⟩
      · exact .inl hfile
    · obtain ⟨hdir', hpath'⟩ := directory_of_meet hl hdir hname hentry hmeet
      exact ih _ (hroom ▸ room_lt_of_meet hc hmeet) hdir' hpath' hbelow rfl f hf

theorem isListable_of_mem_files (hnamed : d.IsNamed) {directory : Path}
    (h : d.files directory extension = .ok listed) : ∀ f ∈ listed, d.IsListable f := by
  unfold files at h
  split at h
  · cases h
  · next l hl =>
      split at h
      · next hdir =>
          split at h
          · cases h
          · exact isListable_of_mem_visit hnamed hdir (fun l' hl' => Except.ok.inj (hl'.symm.trans hl)) h
      · cases h
        intro f hf
        split at hf
        · next hfile =>
            obtain rfl := List.mem_singleton.1 hf
            exact .inl (Bool.and_eq_true_iff.1 hfile).1
        · cases hf

end Disk

end Inlay
