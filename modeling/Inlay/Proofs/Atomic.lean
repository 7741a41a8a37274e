import Inlay.Proofs.Frame
import Inlay.Proofs.Sibling

namespace Inlay

namespace Disk

variable {d d' : Disk} {path step : Path} {steps rest : List Path} {here l m : Location} {n links mode : Nat}
  {content : Bytes}

/-! ### Ways through an entry that is replaced -/

theorem follow_of_not_isDirectoryAt (hl : d.isDirectoryAt l = false) (hsteps : steps ≠ []) :
    d.follow links l steps = .error .notDirectory := by
  cases steps with
  | nil => exact absurd rfl hsteps
  | cons step steps => rw [follow, hl, if_pos (by simp)]

theorem follow_put_of_look (hl : d.isDirectoryAt l = false) (hdir : d.Admits here step) (hstep : IsName step)
    (heq : here ++ [step] = l) (hrest : rest ≠ []) :
    (d.put l (.file mode content)).follow links here (step :: rest) = .error .notDirectory := by
  have hself : entry? (d.put l (.file mode content)) (here ++ [step]) = some (.file mode content) := by
    rw [heq]
    exact entry?_put_self (heq ▸ by simp) _
  have hmove : Move (d.put l (.file mode content)) here step 0 (here ++ [step]) [] := .enter hstep hself nofun
  have hfollow := hmove.follow_eq (hdir.put hl _) links rest
  rw [Nat.zero_add] at hfollow
  rw [hfollow, heq]
  exact follow_of_not_isDirectoryAt (by rw [isDirectoryAt_put_file hl, hl]) hrest

theorem Passes.follow_put (h : Passes d l here steps) (hl : d.isDirectoryAt l = false) (hleads : Leads d n here steps m)
    (hn : n ≤ links) (hrest : rest ≠ []) :
    (d.put l (.file mode content)).follow links here (steps ++ rest) = .error .notDirectory := by
  -- Before the first look at the entry every move is the one from before; the look finds a file.
  induction h generalizing n links with
  | look hdir hstep heq =>
      exact follow_put_of_look hl hdir hstep heq (List.append_ne_nil_of_right_ne_nil _ hrest)
  | @on here mid step steps more k hdir hmove _ ih =>
      cases hleads with
      | step _ hmove' hleads =>
          obtain ⟨rfl, rfl, rfl⟩ := hmove.unique hmove'
          by_cases hlook : IsName step ∧ here ++ [step] = l
          · exact follow_put_of_look hl hdir hlook.1 hlook.2 (List.append_ne_nil_of_right_ne_nil _ hrest)
          · obtain ⟨links, rfl⟩ := Nat.exists_eq_add_of_le (Nat.le_of_add_right_le hn)
            have hput := hmove.put (fun hstep heq => hlook ⟨hstep, heq⟩) (.file mode content)
            rw [List.cons_append, hput.follow_eq (hdir.put hl _), ← List.append_assoc]
            exact ih hleads (Nat.le_of_add_le_add_left hn)

theorem Passes.exists_leads (h : Passes d l here steps) (hleads : Leads d n here steps m) :
    ∃ a dir name rest, dir ++ [name] = l ∧ Leads d a dir (name :: rest) m := by
  induction h generalizing n with
  | @look here step rest _ _ heq => exact ⟨n, here, step, rest, heq, hleads⟩
  | on _ hmove _ ih =>
      cases hleads with
      | step _ hmove' hleads =>
          obtain ⟨rfl, rfl, rfl⟩ := hmove.unique hmove'
          exact ih hleads

namespace Names

variable {init : List Path} {name : Path} {dir : Location}

theorem locate_put (h : d.Names path init name dir) (hl : d.isDirectoryAt (dir ++ [name]) = false)
    (hpasses : ¬Passes d (dir ++ [name]) (d.start path) init) (mode : Nat) (content : Bytes) :
    (d.put (dir ++ [name]) (.file mode content)).locate path = .ok (dir ++ [name]) := by
  obtain ⟨n, k, target, hn, hinit, -⟩ := h.leads
  have hself : entry? (d.put (dir ++ [name]) (.file mode content)) (dir ++ [name]) = some (.file mode content) :=
    entry?_put_self (by simp) _
  have hname : Leads (d.put (dir ++ [name]) (.file mode content)) 0 dir [name] (dir ++ [name]) :=
    .of_move (h.admits.put hl _) (.enter h.isName hself nofun)
  refine locate_eq_ok.2 ⟨h.checkPath, n + 0, by omega, ?_⟩
  rw [h.steps]
  exact (hinit.put hl hpasses).append hname

theorem locate_put_of_passes (h : d.Names path init name dir) (hl : d.isDirectoryAt (dir ++ [name]) = false)
    (hpasses : Passes d (dir ++ [name]) (d.start path) init) (mode : Nat) (content : Bytes) :
    (d.put (dir ++ [name]) (.file mode content)).locate path = .error .notDirectory := by
  obtain ⟨n, k, target, hn, hinit, -⟩ := h.leads
  rw [locate, h.checkPath, h.steps]
  exact hpasses.follow_put hl hinit (Nat.le_of_add_right_le hn) (List.cons_ne_nil _ _)

theorem isDirectory_of_passes (h : d.Names path init name dir)
    (hpasses : Passes d (dir ++ [name]) (d.start path) init) : d.isDirectory path := by
  obtain ⟨n, k, target, hn, hinit, hname⟩ := h.leads
  obtain ⟨a, dir', name', rest, heq, hleads⟩ := hpasses.exists_leads hinit
  obtain ⟨rfl, rfl⟩ : dir' = dir ∧ name' = name := by simpa using heq
  obtain ⟨x, y, mid, -, hfirst, hrest⟩ := hleads.of_cons
  obtain rfl := hfirst.unique hname
  have htarget : d.isDirectoryAt mid := by
    cases hrest with
    | here => exact h.admits.1
    | step hdir => exact hdir.1
  have hlocate : d.locate path = .ok mid := by
    refine locate_eq_ok.2 ⟨h.checkPath, n + k, hn, ?_⟩
    rw [h.steps]
    exact hinit.append hname
  obtain ⟨e, he, hdir⟩ := (Option.any_eq_true _ _).1 htarget
  rw [isDirectory, stat_of_locate hlocate, he]
  exact hdir

end Names

/-- What is different after a replacement: the entry at `l` that the path names. -/
structure Superseded (d d' : Disk) (path : Path) (content : String) (l : Location) (mode : Nat) : Prop where
  named : d.place path = .ok l
  found : d.mode path = .ok mode
  before : ∃ e, d.entry? l = some e ∧ e.isDirectory = false
  after : d'.entry? l = some (.file mode (Text.encode content))
  others : ∀ l', l' ≠ l → d'.entry? l' = d.entry? l'
  working : d'.workingDirectory = d.workingDirectory
  privileged : d'.privileged = d.privileged
  reads : ¬d.Passes l (d.start path) (Path.names path).dropLast →
    d'.locate path = .ok l ∧ d'.mode path = .ok mode ∧
      (d.grants .read (.file mode []) → readText d' path = .ok content)
  lost : d.Passes l (d.start path) (Path.names path).dropLast →
    d.isDirectory path ∧ d'.locate path = .error .notDirectory

theorem superseded_put {content : String} (hmode : d.mode path = .ok mode) (hplace : d.place path = .ok l)
    (hl : d.isDirectoryAt l = false) :
    d.Superseded (d.put l (.file mode (Text.encode content))) path content l mode := by
  obtain ⟨target, htarget⟩ := locate_of_mode hmode
  obtain ⟨init, name, dir, rfl, hnames⟩ := exists_names htarget hplace
  have hself : entry? (d.put (dir ++ [name]) (.file mode (Text.encode content))) (dir ++ [name]) =
      some (.file mode (Text.encode content)) := entry?_put_self (by simp) _
  have hbefore : ∃ e, d.entry? (dir ++ [name]) = some e ∧ e.isDirectory = false := by
    obtain ⟨e, he⟩ := hnames.entry
    rw [isDirectoryAt, he] at hl
    exact ⟨e, he, hl⟩
  refine ⟨hplace, hmode, hbefore, hself, fun l' hl' => entry?_put_of_ne _ hl', rfl, rfl, fun hpasses => ?_,
    fun hpasses => ?_⟩
  · rw [hnames.names, List.dropLast_concat] at hpasses
    have hlocate := hnames.locate_put hl hpasses mode (Text.encode content)
    refine ⟨hlocate, ?_, Explorer.readText_of_locate hlocate hself⟩
    rw [Disk.mode, stat_of_locate hlocate, hself]
    rfl
  · rw [hnames.names, List.dropLast_concat] at hpasses
    exact ⟨hnames.isDirectory_of_passes hpasses, hnames.locate_put_of_passes hl hpasses mode (Text.encode content)⟩

end Disk

/-- Whatever the system refuses, a replacement takes place as a whole or fails, and then it leaves nothing behind but
a sibling that the system does not let it take away. Where nothing is refused it takes place if the path leads
somewhere and names no directory. -/
theorem replacement_all_or_nothing (s : Disk.Surroundings) (d : Disk) (path : Path) (content : String) :
    (∀ d', (persist s path content).run d = (.ok (), d') → ∃ l mode, d.Superseded d' path content l mode) ∧
    (∀ e d', (persist s path content).run d = (.error e, d') →
      (∃ cause, e = .writeFailure path cause) ∧ s.Leaves path d d' ∧ (s.refused .remove = none → d' = d)) ∧
    (s.IsSmooth d path → ((∃ d', (persist s path content).run d = (.ok (), d')) ↔
      (∃ mode, d.mode path = .ok mode) ∧ ∃ l, d.place path = .ok l ∧ d.isDirectoryAt l = false)) := by
  refine ⟨fun d' h => ?_, fun e d' h => ?_, fun hsmooth => ⟨fun h => ?_, fun h => ?_⟩⟩
  · obtain ⟨cause, d₁, hrun, -⟩ | ⟨d₁, hreplace, hrun⟩ := run_persist_cases s path content d
    · cases hrun.symm.trans h
    · cases hrun.symm.trans h
      obtain ⟨mode, l, hmode, hplace, hl, rfl⟩ := Disk.replace_eq_ok.1 hreplace
      exact ⟨l, mode, Disk.superseded_put hmode hplace hl⟩
  · obtain ⟨cause, d₁, hrun, hleaves⟩ | ⟨d₁, -, hrun⟩ := run_persist_cases s path content d
    · cases hrun.symm.trans h
      exact ⟨⟨cause, rfl⟩, hleaves, hleaves.eq_of_remove⟩
    · cases hrun.symm.trans h
  · obtain ⟨d', h⟩ := h
    obtain ⟨cause, d₁, hrun, -⟩ | ⟨d₁, hreplace, -⟩ := run_persist_cases s path content d
    · cases hrun.symm.trans h
    · obtain ⟨mode, l, hmode, hplace, hl, -⟩ := Disk.replace_eq_ok.1 hreplace
      exact ⟨⟨mode, hmode⟩, l, hplace, hl⟩
  · obtain ⟨⟨mode, hmode⟩, l, hplace, hl⟩ := h
    exact ⟨_, hsmooth.run_persist (Disk.replace_eq_ok.2 ⟨mode, l, hmode, hplace, hl, rfl⟩)⟩

namespace Disk

/-- A directory and a link to it. -/
def crossed : Disk := { entries := ⟨[(["d"], .directory 0o755), (["x"], .link "d")], by decide⟩, workingDirectory := [] }

theorem leads_crossed_x : Leads crossed 1 [] ["x"] ["d"] := by
  have hd : Leads crossed 0 [] ["d"] ["d"] := .of_move (admits_root _ _) (.enter (by decide) rfl nofun)
  have hmove : Move crossed [] "x" 1 (linkStart [] "d") (Path.steps "d") := .through (by decide) rfl (by decide)
  have hsteps : Path.steps "d" = [("d" : Path)] := by decide
  rw [hsteps] at hmove
  exact .step (admits_root _ _) hmove hd

theorem leads_crossed_up : Leads crossed (1 + 0) [] ["x", ".."] [] :=
  leads_crossed_x.append (.of_move (by decide) .up)

theorem mode_crossed : crossed.mode "x/../x" = .ok 0o755 := by
  have hsteps : Path.steps "x/../x" = [("x" : Path), "..", "x"] := by decide
  have hlocate : crossed.locate "x/../x" = .ok ["d"] := by
    refine locate_eq_ok.2 ⟨rfl, 1 + 0 + 1, by decide, ?_⟩
    rw [hsteps]
    exact leads_crossed_up.append leads_crossed_x
  rw [mode, stat_of_locate hlocate]
  rfl

theorem place_crossed : crossed.place "x/../x" = .ok ["x"] :=
  place_eq_ok.2 ⟨rfl, by decide, ["x", ".."], "x", [], 1 + 0, by decide, by decide, by decide, by decide,
    leads_crossed_up, rfl, by decide, rfl⟩

theorem isSmooth_crossed : (Surroundings.willing "t").IsSmooth crossed "x/../x" := by
  have hbase : Path.join (crossed.siblingBase "x/../x") "t" = "/x/../t" := by decide
  have hplace : crossed.place "/x/../t" = .ok ["t"] :=
    place_eq_ok.2 ⟨rfl, by decide, ["x", ".."], "t", [], 1 + 0, by decide, by decide, by decide, by decide,
      leads_crossed_up, rfl, by decide, rfl⟩
  exact Surroundings.isSmooth_willing (hbase ▸ hplace) rfl

end Disk

/-- A path through the link that is replaced leads nowhere afterwards. -/
theorem replaced_link_cuts_path : ∃ d', (persist (.willing "t") "x/../x" "\x7b\x7d").run .crossed = (.ok (), d') ∧
    readText d' "x/../x" = .error (.readFailure "x/../x" (.io .notDirectory)) := by
  have hreplace : Disk.crossed.replace "x/../x" (Text.encode "\x7b\x7d") =
      .ok (Disk.crossed.put ["x"] (.file 0o755 (Text.encode "\x7b\x7d"))) :=
    Disk.replace_eq_ok.2 ⟨_, _, Disk.mode_crossed, Disk.place_crossed, rfl, rfl⟩
  refine ⟨_, Disk.isSmooth_crossed.run_persist hreplace, ?_⟩
  have hnames : Path.names "x/../x" = [("x" : Path), "..", "x"] := by decide
  have hpasses : Disk.crossed.Passes ["x"] (Disk.crossed.start "x/../x") (Path.names "x/../x").dropLast := by
    rw [hnames]
    exact .look (Disk.admits_root _ _) (by decide) rfl
  have hsuperseded : Disk.crossed.Superseded _ "x/../x" "\x7b\x7d" ["x"] 0o755 :=
    Disk.superseded_put Disk.mode_crossed Disk.place_crossed rfl
  exact Explorer.readText_of_locate_error (hsuperseded.lost hpasses).2

theorem linked_b_superseded : ∃ d', (persist (.willing "t") "/p/b.fusion" "1").run .linked = (.ok (), d') ∧
    readText d' "/p/b.fusion" = .ok "1" ∧ d'.mode "/p/b.fusion" = .ok 0o644 ∧
    d'.entry? ["p", "a.fusion"] = some (.file 0o644 (Text.encode "md`1`")) := by
  have hname : Disk.linked.NamesFile ["p"] "b.fusion" ["p", "a.fusion"] :=
    ⟨by decide, ⟨1, Disk.leads_linked_b⟩, _, _, rfl⟩
  have hpasses : ¬Disk.linked.Passes ["p", "b.fusion"] (Disk.linked.start "/p/b.fusion")
      (Path.names "/p/b.fusion").dropLast := by
    have hnames : Path.names "/p/b.fusion" = [("p" : Path), "b.fusion"] := by decide
    rw [hnames]
    intro h
    cases h with
    | look _ _ h => exact absurd h (by decide)
    | on _ hmove h =>
        obtain ⟨-, rfl, rfl⟩ := hmove.unique (.enter (by decide) rfl nofun)
        cases h
  have hmode : Disk.linked.mode "/p/b.fusion" = .ok 0o644 := by
    rw [Disk.mode, Disk.stat_of_locate Disk.locate_linked_b]
    rfl
  have hplace : Disk.linked.place "/p/b.fusion" = .ok ["p", "b.fusion"] :=
    Disk.place_of_namesFile (n := 0) rfl (by decide) (by decide) (by decide) (Disk.leads_package rfl) hname
  have hsmooth : (Disk.Surroundings.willing "t").IsSmooth .linked "/p/b.fusion" :=
    Disk.isSmooth_linked (.inr rfl) rfl rfl (by decide) rfl
  obtain ⟨hok, -, hiff⟩ := replacement_all_or_nothing (.willing "t") .linked "/p/b.fusion" "1"
  obtain ⟨d', h⟩ := (hiff hsmooth).2 ⟨⟨_, hmode⟩, _, hplace, rfl⟩
  obtain ⟨l, mode, hs⟩ := hok d' h
  cases hplace.symm.trans hs.named
  cases hmode.symm.trans hs.found
  obtain ⟨-, hmode', hread⟩ := hs.reads hpasses
  exact ⟨d', h, hread rfl, hmode', hs.others _ (by decide)⟩

end Inlay
