import Inlay.Proofs.Bypass
import Inlay.Proofs.Course

namespace Inlay

variable {part : Location → Bool}

namespace Disk

variable {d d' d₀ d₀' d₁ d₁' : Disk} {here l : Location} {path name : Path} {steps : List Path} {mode : Nat}
  {content : Bytes}

/-- Two runs have come from the disks `d₀` and `d₀'` to `d` and `d'`: these are the same apart from the part, which is as
it was, and no way has come to lead into it. -/
structure Mirrors (part : Location → Bool) (d₀ d₀' d d' : Disk) : Prop where
  same : SameApart part d d'
  working : d.workingDirectory = d₀.workingDirectory
  left : ∀ l, part l = true → d.entry? l = d₀.entry? l
  right : ∀ l, part l = true → d'.entry? l = d₀'.entry? l
  misses : ∀ path, d₀.Misses part path → d.Misses part path

theorem Mirrors.refl (h : SameApart part d d') : Mirrors part d d' d d' :=
  ⟨h, rfl, fun _ _ => rfl, fun _ _ => rfl, fun _ h => h⟩

theorem Mirrors.trans (h : Mirrors part d₀ d₀' d d') (h' : Mirrors part d d' d₁ d₁') : Mirrors part d₀ d₀' d₁ d₁' :=
  ⟨h'.same, h'.working.trans h.working, fun l hl => (h'.left l hl).trans (h.left l hl),
    fun l hl => (h'.right l hl).trans (h.right l hl), fun path hpath => h'.misses path (h.misses path hpath)⟩

/-! ### A file where no directory is -/

theorem Admits.of_put {step : Path} (h : (d.put l (.file mode content)).Admits here step)
    (hl : d.isDirectoryAt l = false) : d.Admits here step := by
  have hdir : d.isDirectoryAt here := (isDirectoryAt_put_file hl mode content here).symm.trans h.1
  have hne : here ≠ l := by
    rintro rfl
    rw [hl] at hdir
    cases hdir
  exact ⟨hdir, fun hstep => (grantsAt_put_of_ne .search _ hne).symm.trans (h.2 hstep)⟩

theorem Passes.of_put {l' : Location} (h : Passes (d.put l (.file mode content)) l' here steps)
    (hl : d.isDirectoryAt l = false) : Passes d l' here steps := by
  have hne : l ≠ [] := by
    rintro rfl
    cases hl
  induction h with
  | look hdir hstep heq => exact .look (hdir.of_put hl) hstep heq
  | @on here mid step rest more k hdir hmove hrest ih =>
      suffices hmove' : Move d here step k mid more from .on (hdir.of_put hl) hmove' ih
      cases hmove with
      | stay hstep => exact .stay hstep
      | up => exact .up
      | enter hstep he hlink =>
          by_cases hsame : here ++ [step] = l
          · have hdir' : d.isDirectoryAt (here ++ [step]) := by
              cases hrest with
              | look hdir | on hdir => exact (hdir.of_put hl).1
            rw [hsame, hl] at hdir'
            cases hdir'
          · exact .enter hstep ((entry?_put_of_ne _ hsame).symm.trans he) hlink
      | through hstep he htarget =>
          have hsame : here ++ [step] ≠ l := by
            rintro rfl
            cases (entry?_put_self hne _).symm.trans he
          exact .through hstep ((entry?_put_of_ne _ hsame).symm.trans he) htarget

theorem Misses.put (h : d.Misses part path) (hl : d.isDirectoryAt l = false) (mode : Nat) (content : Bytes) :
    (d.put l (.file mode content)).Misses part path :=
  ⟨h.1, fun l' hpasses => h.2 l' (hpasses.of_put hl)⟩

theorem SameApart.put (h : SameApart part d d') (l : Location) (e : Entry) : SameApart part (d.put l e) (d'.put l e) := by
  refine ⟨h.isClosed, fun l' hl' => ?_, h.working, h.privileged⟩
  by_cases hsame : l' = l
  · subst hsame
    by_cases hne : l' = []
    · simp [Disk.entry?, hne]
    · rw [entry?_put_self hne, entry?_put_self hne]
  · rw [entry?_put_of_ne _ hsame, entry?_put_of_ne _ hsame, h.entry l' hl']

theorem Mirrors.put (h : Mirrors part d₀ d₀' d d') (hpart : part l = false) (hl : d.isDirectoryAt l = false)
    (mode : Nat) (content : Bytes) :
    Mirrors part d₀ d₀' (d.put l (.file mode content)) (d'.put l (.file mode content)) := by
  have hne {l' : Location} (hl' : part l' = true) : l' ≠ l := by
    rintro rfl
    rw [hpart] at hl'
    cases hl'
  refine ⟨h.same.put l _, h.working, fun l' hl' => ?_, fun l' hl' => ?_, fun path hpath => (h.misses path hpath).put hl _ _⟩
  · rw [entry?_put_of_ne _ (hne hl'), h.left l' hl']
  · rw [entry?_put_of_ne _ (hne hl'), h.right l' hl']

/-! ### The replacement of a file -/

theorem Misses.outside_of_names (h : d.Misses part path) (hpart : IsClosed part) {init : List Path} {dir : Location}
    (hnames : d.Names path init name dir) : part (dir ++ [name]) = false := by
  obtain ⟨n, k, target, -, hinit, -⟩ := hnames.leads
  rw [Misses, hnames.steps] at h
  exact (h.after hpart hinit).2 _ (.look hnames.admits hnames.isName rfl)

theorem SameApart.taken (h : SameApart part d d') (hmisses : d.Misses part path) {target : Location}
    (hl : d.locate path = .ok target) :
    d'.taken path = d.taken path ∧ ∀ l, d.taken path = .ok l → part l = false := by
  unfold Disk.taken
  rw [h.place hmisses]
  cases hplace : d.place path with
  | error cause => exact ⟨rfl, nofun⟩
  | ok l =>
      obtain ⟨init, name, dir, rfl, hnames⟩ := exists_names hl hplace
      have houtside := hmisses.outside_of_names h.isClosed hnames
      simp only [bind, Except.bind, h.isDirectoryAt houtside]
      refine ⟨trivial, fun l' hl' => ?_⟩
      split at hl'
      · cases hl'
      · cases hl'
        exact houtside

/-- A name that siblings of the path may have: it keeps out of the part. -/
structure IsSpare (d : Disk) (part : Location → Bool) (path name : Path) : Prop where
  isName : IsName name
  isComponent : Path.IsComponent name
  misses : d.Misses part (Path.join (d.siblingBase path) name)

theorem siblingBase_ne_nil (d : Disk) (path : Path) : d.siblingBase path ≠ [] := by
  unfold siblingBase Path.join workingPath pathTo
  generalize (if Path.parent path = [] then Path.here else Path.parent path) = base
  split
  · next habs =>
      rintro rfl
      cases habs
  · split <;> simp

theorem IsSpare.outside (h : d.IsSpare part path name) (hpart : IsClosed part)
    (hplace : d.place (Path.join (d.siblingBase path) name) = .ok l) : part l = false := by
  obtain ⟨-, -, init, last, dir, n, hnames, -, -, -, hinit, hdir, hsearch, rfl⟩ := place_eq_ok.1 hplace
  have hbase := siblingBase_ne_nil d path
  rw [Path.names_join hbase h.isComponent] at hnames
  obtain ⟨rfl, hlast⟩ := List.append_inj' hnames rfl
  obtain rfl := List.head_eq_of_cons_eq hlast
  have hmisses := h.misses
  rw [Misses, Path.steps_join hbase h.isComponent] at hmisses
  exact (hmisses.after hpart hinit).2 _ (.look (.of_search hdir hsearch name) h.isName rfl)

namespace Mirrors

variable {s : Surroundings}

theorem siblingBase (h : Mirrors part d₀ d₀' d d') (path : Path) :
    d.siblingBase path = d₀.siblingBase path ∧ d'.siblingBase path = d₀.siblingBase path := by
  have hleft : d.siblingBase path = d₀.siblingBase path := by
    rw [Disk.siblingBase, workingPath, h.working, Disk.siblingBase, workingPath]
  refine ⟨hleft, ?_⟩
  rw [← hleft, Disk.siblingBase, h.same.workingPath, Disk.siblingBase]

theorem makeSibling (h : Mirrors part d₀ d₀' d d') {names : List Path} (hnames : ∀ name ∈ names, d₀.IsSpare part path name) :
    (∃ cause, d.makeSibling path names = .error cause ∧ d'.makeSibling path names = .error cause) ∨
      ∃ l e e', d.makeSibling path names = .ok (l, e) ∧ d'.makeSibling path names = .ok (l, e') ∧ part l = false := by
  obtain ⟨hbase, hbase'⟩ := h.siblingBase path
  induction names with
  | nil =>
      unfold Disk.makeSibling
      rw [hbase, hbase']
      exact .inl ⟨_, rfl, rfl⟩
  | cons name names ih =>
      have hspare : d.IsSpare part path name := by
        obtain ⟨hname, hcomponent, hmisses⟩ := hnames name List.mem_cons_self
        exact ⟨hname, hcomponent, hbase ▸ h.misses _ hmisses⟩
      unfold Disk.makeSibling
      have hplace' := h.same.place hspare.misses
      rw [hbase'.trans hbase.symm]
      dsimp only
      rw [hplace']
      cases hplace : d.place (Path.join (d.siblingBase path) name) with
      | error cause => exact .inl ⟨_, rfl, rfl⟩
      | ok l =>
          have houtside := hspare.outside h.same.isClosed hplace
          dsimp only
          rw [h.same.entry l houtside]
          split
          · exact ih fun name hname => hnames name (List.mem_cons_of_mem _ hname)
          · exact .inr ⟨l, _, _, rfl, rfl, houtside⟩

end Mirrors

namespace Surroundings

end Surroundings

end Disk

/-- The answer is the same whatever the part holds, and the part is left as it is. -/
def Ignores {ε α : Type} (part : Location → Bool) (k : ExceptT ε (StateM Disk) α) : Prop :=
  ∀ d d', Disk.SameApart part d d' → (k.run d').1 = (k.run d).1 ∧ Disk.Mirrors part d d' (k.run d).2 (k.run d').2

theorem Ignores.relates {ε α : Type} {k : ExceptT ε (StateM Disk) α} (h : Ignores part k) (d₀ d₀' : Disk) :
    Relates (Disk.Mirrors part d₀ d₀') k := by
  intro d d' hmirrors
  obtain ⟨hanswer, hleft⟩ := h d d' hmirrors.same
  exact ⟨hanswer, hmirrors.trans hleft⟩

namespace Step

variable {d₀ d₀' : Disk}

end Step

namespace Explorer

variable {x : Explorer} {q : Request} {d d' d₀ d₀' : Disk}

/-- The request is answered without a look at the part: files are looked for beside it, siblings are made beside it, and
the transpiler does not look there either. -/
structure Ignores (x : Explorer) (d : Disk) (part : Location → Bool) (q : Request) : Prop where
  overlooks : x.Overlooks d part q
  sibling : q.mode = .eject → ∀ files, x.resolve d q = .ok files → ∀ file ∈ files,
    ∀ name ∈ (x.surroundings file).names, d.IsSpare part file name
  transpiler : ∀ t, x.registry.resolve q.dsl = .ok t → ∀ code, Inlay.Ignores part (t code)

end Explorer

end Inlay
