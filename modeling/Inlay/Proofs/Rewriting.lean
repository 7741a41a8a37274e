import Inlay.Proofs.Course

namespace Inlay

/-- Expanding the text that many times, each time what the time before gave. -/
inductive Rewrites (r : Registry) (dsl : String) : Nat → String → String → Prop
  | zero (text : String) : Rewrites r dsl 0 text text
  | succ {n : Nat} {text mid : String} {e : Expansion} (h : Rewrites r dsl n text mid)
      (hexpand : ∀ d, (r.expand mid dsl).run d = (.ok e, d)) : Rewrites r dsl (n + 1) text e.content

def Disk.sharing (d : Disk) (files : List Path) (path : Path) : Nat :=
  files.countP fun f => d.locate f = d.locate path

theorem Disk.sharing_append (d : Disk) (files files' : List Path) (path : Path) :
    d.sharing (files ++ files') path = d.sharing files path + d.sharing files' path := List.countP_append

theorem readText_congr {d d' : Disk} {path path' : Path} (h : d'.read path' = d.read path) {text : String}
    (hread : readText d path = .ok text) : readText d' path' = .ok text := by
  unfold readText at hread ⊢
  rw [h]
  cases hbytes : d.read path with
  | error e =>
      rw [hbytes] at hread
      cases hread
  | ok bytes =>
      rw [hbytes] at hread
      dsimp only at hread ⊢
      cases htext : Text.decode? bytes with
      | none =>
          rw [htext] at hread
          cases hread
      | some s =>
          rw [htext] at hread
          cases hread
          rfl

/-- A disk on which the paths in `done` have been handled, one by one, since it was `d₀`. -/
structure Rewritten (r : Registry) (dsl : String) (d₀ d : Disk) (done : List Path) : Prop where
  isTree : d.IsTree
  privileged : d.privileged = d₀.privileged
  barred : ∀ p, d₀.IsBarred p → d.locate p = d₀.locate p
  isFile : ∀ p, d₀.isFile p = true → d.isFile p = true
  locate : ∀ p p', d₀.isFile p = true → d₀.isFile p' = true → d.locate p = d.locate p' → d₀.locate p = d₀.locate p'
  text : ∀ p c, d₀.isFile p = true → readText d₀ p = .ok c →
    ∃ n c', n ≤ d₀.sharing done p ∧ Rewrites r dsl n c c' ∧ readText d p = .ok c'

namespace Rewritten

variable {r : Registry} {dsl : String} {d₀ d d' : Disk} {done : List Path}

theorem nil (hd : d₀.IsTree) : Rewritten r dsl d₀ d₀ [] :=
  ⟨hd, rfl, fun _ _ => rfl, fun _ => id, fun _ _ _ _ => id, fun _ c _ hc => ⟨0, c, Nat.zero_le _, .zero c, hc⟩⟩

theorem skip (h : Rewritten r dsl d₀ d done) (file : Path) : Rewritten r dsl d₀ d (done ++ [file]) := by
  refine ⟨h.isTree, h.privileged, h.barred, h.isFile, h.locate, fun p c hp hc => ?_⟩
  obtain ⟨n, c', hn, hrewrites, hread⟩ := h.text p c hp hc
  rw [Disk.sharing_append]
  exact ⟨n, c', Nat.le_add_right_of_le hn, hrewrites, hread⟩

theorem step (h : Rewritten r dsl d₀ d done) {file : Path} {text : String} {e : Expansion} (hfile : d₀.isFile file = true)
    (htext : readText d file = .ok text) (hexpand : ∀ d, (r.expand text dsl).run d = (.ok e, d))
    (hreplace : d.replace file (Text.encode e.content) = .ok d') : Rewritten r dsl d₀ d' (done ++ [file]) := by
  obtain ⟨d₁, hreplace₁, htree, hfile', hread, hothers⟩ :=
    Disk.exists_replace_reads h.isTree (h.isFile file hfile) (Text.encode e.content)
  obtain rfl : d' = d₁ := Except.ok.inj (hreplace.symm.trans hreplace₁)
  have hother : ∀ p, d₀.isFile p = true →
      (d'.locate p = d.locate p ∧ d'.stat p = d.stat p ∧ d'.locate p ≠ d'.locate file) ∨
        (d.locate p = d.locate file ∧ d'.locate p = d'.locate file) := by
    intro p hp
    obtain ⟨l, e, hfinds⟩ := Disk.exists_finds_of_isFile (h.isFile p hp)
    exact hothers p l e hfinds
  have hprivileged := Disk.privileged_of_replace hreplace
  refine ⟨htree, hprivileged.trans h.privileged, fun p hp => ?_, fun p hp => ?_, fun p p' hp hp' heq => ?_, fun p c hp hc => ?_⟩
  · rw [← h.barred p hp]
    have hp' : d.IsBarred p := by rwa [Disk.IsBarred, h.barred p hp]
    obtain ⟨cause, hcause, hlocate⟩ := Disk.isBarred_iff.1 hp'
    rw [Disk.locate_replace_of_error h.isTree (h.isFile file hfile) hreplace hcause hlocate, hlocate]
  · obtain ⟨-, hstat, -⟩ | ⟨-, hsame⟩ := hother p hp
    · rw [Disk.isFile, hstat, ← Disk.isFile, h.isFile p hp]
    · rw [Disk.isFile_iff] at hfile' ⊢
      rwa [hsame]
  · obtain ⟨hkept, -, hne⟩ | ⟨hold, hnew⟩ := hother p hp
    · obtain ⟨hkept', -, -⟩ | ⟨-, hnew'⟩ := hother p' hp'
      · exact h.locate p p' hp hp' (hkept.symm.trans (heq.trans hkept'))
      · exact absurd (heq.trans hnew') hne
    · obtain ⟨-, -, hne'⟩ | ⟨hold', -⟩ := hother p' hp'
      · exact absurd (heq.symm.trans hnew) hne'
      · exact h.locate p p' hp hp' (hold.trans hold'.symm)
  · obtain ⟨n, c', hn, hrewrites, hc'⟩ := h.text p c hp hc
    rw [Disk.sharing_append]
    obtain ⟨-, hstat, -⟩ | ⟨hold, hnew⟩ := hother p hp
    · exact ⟨n, c', Nat.le_add_right_of_le hn, hrewrites, readText_congr (Disk.read_congr hprivileged hstat) hc'⟩
    · -- the file has been read through another of its paths
      obtain rfl : c' = text := by
        have hsame : d.read p = d.read file := by simp only [Disk.read, Disk.openEntry, Disk.stat, hold]
        exact Except.ok.inj ((readText_congr hsame htext).symm.trans hc').symm
      refine ⟨n + 1, e.content, ?_, hrewrites.succ hexpand, ?_⟩
      · have hone : d₀.sharing [file] p = 1 := by
          rw [Disk.sharing, List.countP_singleton, if_pos (by simp [h.locate file p hfile hp hold.symm])]
        omega
      · have hsame : d'.read p = d'.read file := by simp only [Disk.read, Disk.openEntry, Disk.stat, hnew]
        obtain ⟨old, hold'⟩ := exists_read_of_readText htext
        rw [readText, hsame, hread old hold']
        dsimp only
        rw [Text.decode?_encode]

end Rewritten

namespace Explorer

variable {x : Explorer} {q : Request} {d₀ d d' : Disk} {done files : List Path} {shown : List Preview}

theorem exists_expansion_of_preview (hpure : ∀ t, x.registry.resolve q.dsl = .ok t → t.IsPure) {file : Path}
    {s : Preview} (h : x.preview d q.dsl file = .ok (some s)) :
    ∃ e, (∀ d, (x.registry.expand s.before q.dsl).run d = (.ok e, d)) ∧ s.after = e.content := by
  unfold preview at h
  split at h
  · cases h
  · next text _ =>
      obtain ⟨result, hresult⟩ := Registry.expand_steady hpure text
      rw [hresult] at h
      dsimp only at h
      cases result with
      | error e => cases h
      | ok e =>
          dsimp only at h
          split at h
          · cases h
            exact ⟨e, hresult, rfl⟩
          · cases h

theorem isFile_of_readText {file : Path} {text : String} (hlist : d₀.IsListable file)
    (hbarred : d₀.IsBarred file → d.locate file = d₀.locate file) (h : readText d file = .ok text) :
    d₀.isFile file = true := by
  obtain hfile | ⟨-, hno⟩ := hlist
  · exact hfile
  · obtain ⟨cause, -, hlocate⟩ := Disk.isBarred_iff.1 hno
    rw [readText_of_locate_error ((hbarred hno).trans hlocate)] at h
    cases h

variable (hpure : ∀ t, x.registry.resolve q.dsl = .ok t → t.IsPure)
include hpure

theorem rewritten_of_handle (h : Rewritten x.registry q.dsl d₀ d done) {file : Path} {s : Option Preview}
    (hlist : d₀.IsListable file) (hfile : x.handle q d file = (.ok s, d')) :
    Rewritten x.registry q.dsl d₀ d' (done ++ [file]) := by
  obtain ⟨hpreview, rfl | ⟨s, rfl, -, hreplace⟩⟩ := handle_cases hfile
  · exact h.skip file
  · obtain ⟨e, hexpand, hafter⟩ := exists_expansion_of_preview hpure hpreview
    obtain ⟨rfl, hread⟩ := file_of_preview hpreview
    rw [hafter] at hreplace
    exact h.step (isFile_of_readText hlist (h.barred _) hread) hread hexpand hreplace

theorem Handles.rewritten (hlist : ∀ f ∈ files, d₀.IsListable f) (h : Rewritten x.registry q.dsl d₀ d done)
    (hfiles : Handles x q d files shown d') : Rewritten x.registry q.dsl d₀ d' (done ++ files) := by
  induction hfiles generalizing done with
  | nil d =>
      rw [List.append_nil]
      exact h
  | @cons _ _ _ file _ files _ hfile _ ih =>
      have hnext := rewritten_of_handle hpure h (hlist file List.mem_cons_self) hfile
      rw [List.append_cons done file files]
      exact ih (fun f hf => hlist f (List.mem_cons_of_mem _ hf)) hnext

end Explorer

theorem Explorer.Ends.readText {x : Explorer} {files : List Path} {d d' : Disk} {path : Path} {text : String}
    (h : x.Ends files d d') (hread : readText d path = .ok text) : readText d' path = .ok text := by
  obtain rfl | ⟨file, -, hleaves⟩ := h
  · exact hread
  · obtain ⟨bytes, hbytes⟩ := exists_read_of_readText hread
    exact readText_congr ((hleaves.read hbytes).trans hbytes.symm) hread

/-- In one run over a package a text is rewritten at most as often as listed paths lead to its file. So
where no other one does, it is left as it is or rewritten once. -/
theorem rewritten_once_per_listed_path {x : Explorer} {q : Request} {w : World} {key : String}
    {files : List Path} (hd : w.disk.IsTree) (hnamed : w.disk.IsNamed)
    (hpure : ∀ t, x.registry.resolve q.dsl = .ok t → t.IsPure) (htarget : q.target = .ok (.package key))
    (hfiles : x.files w.disk (.package key) = .ok files) :
    ∀ p ∈ files, ∀ c, readText w.disk p = .ok c →
      (∃ n c', n ≤ w.disk.sharing files p ∧ Rewrites x.registry q.dsl n c c' ∧
        readText ((x.run q).run w).2.disk p = .ok c') ∧
      (w.disk.sharing files p = 1 → readText ((x.run q).run w).2.disk p = .ok c ∨
        ∃ e, (∀ d, (x.registry.expand c q.dsl).run d = (.ok e, d)) ∧
          readText ((x.run q).run w).2.disk p = .ok e.content) := by
  intro p hp c hc
  have hlist : ∀ f ∈ files, w.disk.IsListable f := Explorer.isListable_of_mem_files hnamed hfiles
  obtain ⟨done, d, hinitial, hrewritten, hends⟩ : ∃ done d, done <+: files ∧
      Rewritten x.registry q.dsl w.disk d done ∧ x.Ends files d ((x.run q).run w).2.disk := by
    cases hresolve : x.resolve w.disk q with
    | error e =>
        rw [Explorer.run_of_resolve_error hresolve]
        exact ⟨[], w.disk, List.nil_prefix, .nil hd, .inl rfl⟩
    | ok files' =>
        obtain rfl : files' = files :=
          Except.ok.inj (((Explorer.resolve_eq_ok htarget).1 hresolve).2.symm.trans hfiles)
        obtain ⟨done, shown, d, hinitial, hhandles, hends⟩ := Explorer.exists_handles_of_run hpure hresolve
        exact ⟨done, d, hinitial, hhandles.rewritten hpure (fun f hf => hlist f (hinitial.subset hf)) (.nil hd), hends⟩
  have hfile : w.disk.isFile p = true := Explorer.isFile_of_readText (hlist p hp) (fun _ => rfl) hc
  obtain ⟨n, c', hn, hrewrites, hread⟩ := hrewritten.text p c hfile hc
  have hread := hends.readText hread
  have hn' : n ≤ w.disk.sharing files p := by
    obtain ⟨later, rfl⟩ := hinitial
    rw [Disk.sharing_append]
    exact Nat.le_add_right_of_le hn
  refine ⟨⟨n, c', hn', hrewrites, hread⟩, fun hone => ?_⟩
  rw [hone] at hn'
  cases hrewrites with
  | zero => exact .inl hread
  | succ hmore hexpand =>
      cases hmore with
      | zero => exact .inr ⟨_, hexpand, hread⟩
      | succ => omega

namespace Disk

/-- A package `p` of a file and a link to it. -/
def linked : Disk :=
  { entries := ⟨[(["p"], .directory 0o755), (["p", "a.fusion"], .file 0o644 (Text.encode "md`1`")),
      (["p", "b.fusion"], .link "a.fusion")], by decide⟩
    workingDirectory := [] }

def linkedOnce : Disk := linked.put ["p", "a.fusion"] (.file 0o644 (Text.encode "md`1+`"))

def linkedTwice : Disk := linkedOnce.put ["p", "b.fusion"] (.file 0o644 (Text.encode "md`1++`"))

theorem isTree_linked : linked.IsTree := isTree_of_keys (by decide) (by decide)

theorem leads_link {d : Disk} {m : Nat} {content : Bytes} (hb : d.Admits ["p"] "b.fusion") (ha : d.Admits ["p"] "a.fusion")
    (hlink : d.entry? ["p", "b.fusion"] = some (.link "a.fusion"))
    (hfile : d.entry? ["p", "a.fusion"] = some (.file m content)) :
    Leads d 1 ["p"] ["b.fusion"] ["p", "a.fusion"] := by
  have hmove : Move d ["p"] "b.fusion" 1 (linkStart ["p"] "a.fusion") (Path.steps "a.fusion") :=
    .through (by decide) hlink (by decide)
  have hstart : linkStart ["p"] "a.fusion" = ["p"] := by decide
  have hsteps : Path.steps "a.fusion" = [("a.fusion" : Path)] := by decide
  rw [hstart, hsteps] at hmove
  exact .step hb hmove (leads_file ha (by decide) hfile)

theorem leads_linked_a : Leads linked 0 ["p"] ["a.fusion"] ["p", "a.fusion"] := leads_file (by decide) (by decide) rfl

theorem leads_linked_b : Leads linked 1 ["p"] ["b.fusion"] ["p", "a.fusion"] :=
  leads_link (by decide) (by decide) rfl rfl

theorem leads_linkedOnce_b : Leads linkedOnce 1 ["p"] ["b.fusion"] ["p", "a.fusion"] :=
  leads_link (by decide) (by decide) rfl rfl

theorem locate_linked_a : linked.locate "/p/a.fusion" = .ok ["p", "a.fusion"] :=
  locate_in rfl rfl (by decide) rfl (by decide) leads_linked_a

theorem locate_linked_b : linked.locate "/p/b.fusion" = .ok ["p", "a.fusion"] :=
  locate_in rfl rfl (by decide) rfl (by decide) leads_linked_b

theorem locate_linkedOnce_b : linkedOnce.locate "/p/b.fusion" = .ok ["p", "a.fusion"] :=
  locate_in rfl rfl (by decide) rfl (by decide) leads_linkedOnce_b

theorem locate_linkedTwice_b : linkedTwice.locate "/p/b.fusion" = .ok ["p", "b.fusion"] :=
  locate_in rfl rfl (by decide) rfl (by decide) (leads_file (by decide) (by decide) rfl)

theorem replace_linked : linked.replace "/p/a.fusion" (Text.encode "md`1+`") = .ok linkedOnce := by
  have hname : linked.NamesFile ["p"] "a.fusion" ["p", "a.fusion"] := ⟨by decide, ⟨0, leads_linked_a⟩, _, _, rfl⟩
  exact replace_of_namesFile (n := 0) locate_linked_a rfl (by decide) (by decide) (by decide) (leads_package rfl) hname _

theorem replace_linkedOnce : linkedOnce.replace "/p/b.fusion" (Text.encode "md`1++`") = .ok linkedTwice := by
  have hname : linkedOnce.NamesFile ["p"] "b.fusion" ["p", "a.fusion"] :=
    ⟨by decide, ⟨1, leads_linkedOnce_b⟩, _, _, rfl⟩
  exact replace_of_namesFile (n := 0) locate_linkedOnce_b rfl (by decide) (by decide) (by decide) (leads_package rfl)
    hname _

theorem files_linked : linked.files "/p/" "fusion" = .ok ["/p/a.fusion", "/p/b.fusion"] := by
  have hp : linked.locate "/p/" = .ok ["p"] := locate_package_slash rfl
  have hgrants : linked.grantsAt .read ["p"] = true := by decide
  rw [files, hp]
  dsimp only
  rw [if_pos (by decide), if_neg (by simp [hgrants]), visit_of_files (readDirectory_eq_ok.2 ⟨hp, hgrants⟩)]
  · rfl
  · have hchildren : linked.children ["p"] =
        ([("a.fusion", .file 0o644 (Text.encode "md`1`")), ("b.fusion", .link "a.fusion")] : List (Path × Entry)) := rfl
    have hmeet (stack : List Standing) : linked.meet stack ["p"] "/p/b.fusion" "b.fusion" (.link "a.fusion") = .ok .file := by
      rw [meet, locate_linked_b]
      rfl
    intro c hc
    rw [hchildren] at hc
    rcases List.mem_pair.1 hc with rfl | rfl
    · exact ⟨rfl, by decide, by decide⟩
    · exact ⟨hmeet _, by decide, by decide⟩

theorem isSmooth_linked {d : Disk} {m : Nat} {f : Path} (hf : f = "/p/a.fusion" ∨ f = "/p/b.fusion")
    (hworking : d.workingDirectory = []) (hp : d.entry? ["p"] = some (.directory m)) (hdir : d.Admits ["p"] "t")
    (hfree : d.entry? ["p", "t"] = none) : (Surroundings.willing "t").IsSmooth d f := by
  have hplace : d.place "/p/t" = .ok ["p", "t"] :=
    place_eq_ok.2 ⟨rfl, by decide, ["p"], "t", ["p"], 0, by decide, by decide, by decide, by decide,
      leads_package hp, hdir.1, hdir.2 (by decide), rfl⟩
  have hbase : Path.join (d.siblingBase f) "t" = "/p/t" := by
    rw [siblingBase, workingPath, hworking]
    rcases hf with rfl | rfl
    · decide
    · decide
  exact Surroundings.isSmooth_willing (hbase ▸ hplace) hfree

end Disk

def Explorer.marking : Explorer :=
  { registry := ⟨Table.empty.insert "md" (.ofTemplate "md`{code}+`" .none)⟩
    packages := ⟨Table.empty.insert "p" "/p", [], ""⟩
    surroundings := fun _ => .willing "t" }

namespace Explorer

theorem isPure_marking {t : Transpiler} (h : marking.registry.resolve "md" = .ok t) : t.IsPure := by
  cases h
  exact Transpiler.isPure_ofTemplate _ _

theorem expand_marking (d : Disk) : ((marking.registry.expand "md`1`" "md").run d).1 =
    .ok ⟨"md`1+`", [⟨0, 5, "md`1`", "md`1+`"⟩]⟩ := by
  rw [Registry.run_expand_ofTemplate rfl]
  exact congrArg Except.ok (by decide +kernel)

theorem expand_marking_again (d : Disk) : ((marking.registry.expand "md`1+`" "md").run d).1 =
    .ok ⟨"md`1++`", [⟨0, 6, "md`1+`", "md`1++`"⟩]⟩ := by
  rw [Registry.run_expand_ofTemplate rfl]
  exact congrArg Except.ok (by decide +kernel)

theorem files_marking :
    marking.files .linked (.package "p") = .ok ["/p/a.fusion", "/p/b.fusion"] := by
  obtain ⟨hdir, hfusion⟩ := Disk.isDirectory_package (d := .linked) rfl
  refine (files_of_configured (x := marking) rfl hdir hfusion).trans ?_
  change listFiles .linked "/p/" "fusion" = _
  rw [listFiles, Disk.files_linked]

theorem handles_linked :
    Handles marking ⟨"md", some "p", none, .eject, .full⟩ .linked ["/p/a.fusion", "/p/b.fusion"]
      [⟨"/p/a.fusion", "md`1`", "md`1+`"⟩, ⟨"/p/b.fusion", "md`1+`", "md`1++`"⟩] .linkedTwice := by
  have hreadA : readText .linked "/p/a.fusion" = .ok "md`1`" := readText_of_locate Disk.locate_linked_a rfl rfl
  have hreadB : readText .linkedOnce "/p/b.fusion" = .ok "md`1+`" := readText_of_locate Disk.locate_linkedOnce_b rfl rfl
  have hsmoothA : (marking.surroundings "/p/a.fusion").IsSmooth .linked "/p/a.fusion" :=
    Disk.isSmooth_linked (.inl rfl) rfl rfl (by decide) rfl
  have hsmoothB : (marking.surroundings "/p/b.fusion").IsSmooth .linkedOnce "/p/b.fusion" :=
    Disk.isSmooth_linked (.inr rfl) rfl rfl (by decide) rfl
  have hfirst : marking.handle ⟨"md", some "p", none, .eject, .full⟩ .linked "/p/a.fusion" =
      (.ok (some ⟨"/p/a.fusion", "md`1`", "md`1+`"⟩), .linkedOnce) :=
    handle_of_persist rfl hreadA (expand_marking .linked) rfl (hsmoothA.run_persist Disk.replace_linked)
  have hsecond : marking.handle ⟨"md", some "p", none, .eject, .full⟩ .linkedOnce "/p/b.fusion" =
      (.ok (some ⟨"/p/b.fusion", "md`1+`", "md`1++`"⟩), .linkedTwice) :=
    handle_of_persist rfl hreadB (expand_marking_again .linkedOnce) rfl (hsmoothB.run_persist Disk.replace_linkedOnce)
  exact .cons hfirst (.cons hsecond (.nil .linkedTwice))

end Explorer

/-- A link next to its file: what the run writes through the file's name is rewritten through the link. -/
theorem link_rewritten_twice :
    Disk.linked.IsTree ∧ (∀ t, Explorer.marking.registry.resolve "md" = .ok t → t.IsPure) ∧
      Confirm.Consents (Text.encode "yes") ∧
      Explorer.marking.files .linked (.package "p") = .ok ["/p/a.fusion", "/p/b.fusion"] ∧
      readText .linked "/p/b.fusion" = .ok "md`1`" ∧
      (∀ d, ((Explorer.marking.registry.expand "md`1`" "md").run d).1 =
        .ok ⟨"md`1+`", [⟨0, 5, "md`1`", "md`1+`"⟩]⟩) ∧
      readText ((Explorer.marking.run ⟨"md", some "p", none, .eject, .full⟩).run
        ⟨.linked, {}, Text.encode "yes"⟩).2.disk "/p/b.fusion" = .ok "md`1++`" := by
  have hyes : Confirm.Consents (Text.encode "yes") := (Confirm.consents_encode (by decide)).2 (by decide)
  have hread : readText .linked "/p/b.fusion" = .ok "md`1`" := Explorer.readText_of_locate Disk.locate_linked_b rfl rfl
  refine ⟨Disk.isTree_linked, fun _ => Explorer.isPure_marking, hyes, Explorer.files_marking, hread,
    Explorer.expand_marking, ?_⟩
  have hfiles : Explorer.marking.resolve .linked ⟨"md", some "p", none, .eject, .full⟩ =
      .ok ["/p/a.fusion", "/p/b.fusion"] := (Explorer.resolve_eq_ok rfl).2 ⟨rfl, Explorer.files_marking⟩
  have hrun : (Explorer.marking.run ⟨"md", some "p", none, .eject, .full⟩).run
      ⟨.linked, {}, Text.encode "yes"⟩ = _ :=
    Explorer.run_of_processFiles hfiles (Explorer.run_gate_of_eject rfl hyes .linked [])
      (Explorer.handles_linked.run_processFiles (fun _ => Explorer.isPure_marking) rfl _)
  rw [hrun]
  exact Explorer.readText_of_locate Disk.locate_linkedTwice_b rfl rfl

theorem linked_rewritten_per_path :
    Disk.linked.IsTree ∧ Disk.linked.IsNamed ∧
      Explorer.marking.files .linked (.package "p") = .ok ["/p/a.fusion", "/p/b.fusion"] ∧
      Disk.linked.sharing ["/p/a.fusion", "/p/b.fusion"] "/p/b.fusion" = 2 ∧
      ∃ n c, n ≤ 2 ∧ Rewrites Explorer.marking.registry "md" n "md`1`" c ∧
        readText ((Explorer.marking.run ⟨"md", some "p", none, .eject, .full⟩).run
          ⟨.linked, {}, Text.encode "yes"⟩).2.disk "/p/b.fusion" = .ok c := by
  have hnamed : Disk.linked.IsNamed := by decide
  have hsharing : Disk.linked.sharing ["/p/a.fusion", "/p/b.fusion"] "/p/b.fusion" = 2 := by
    simp [Disk.sharing, Disk.locate_linked_a, Disk.locate_linked_b]
  have hread : readText .linked "/p/b.fusion" = .ok "md`1`" := Explorer.readText_of_locate Disk.locate_linked_b rfl rfl
  obtain ⟨⟨n, c, hn, hrewrites, hc⟩, -⟩ := rewritten_once_per_listed_path (x := .marking)
    (q := ⟨"md", some "p", none, .eject, .full⟩) (w := ⟨.linked, {}, Text.encode "yes"⟩) Disk.isTree_linked hnamed
    (fun _ => Explorer.isPure_marking) rfl Explorer.files_marking "/p/b.fusion" (by simp) "md`1`" hread
  exact ⟨Disk.isTree_linked, hnamed, Explorer.files_marking, hsharing, n, c, hsharing ▸ hn, hrewrites, hc⟩

end Inlay
