import Inlay.Proofs.Listing
import Mathlib.Data.List.TakeWhile

namespace Inlay

namespace Path

variable {path name : Path} {ns : List Path}

def under (directory : Path) (ns : List Path) : Path := ns.foldl join directory

/-- Names as entries can have them, none of them hidden. -/
def AreShown (ns : List Path) : Prop := ∀ name ∈ ns, IsComponent name ∧ isHidden name = false

theorem AreShown.nil : AreShown [] := nofun

theorem AreShown.cons (hname : IsComponent name) (hshown : isHidden name = false) (h : AreShown ns) :
    AreShown (name :: ns) :=
  List.forall_mem_cons.2 ⟨⟨hname, hshown⟩, h⟩

theorem AreShown.tail (h : AreShown (name :: ns)) : AreShown ns := (List.forall_mem_cons.1 h).2

theorem AreShown.append {ms : List Path} (h : AreShown ns) (h' : AreShown ms) : AreShown (ns ++ ms) :=
  fun name hname => (List.mem_append.1 hname).elim (h name) (h' name)

theorem AreShown.of_append {ms : List Path} (h : AreShown (ns ++ ms)) : AreShown ns ∧ AreShown ms :=
  ⟨fun name hname => h name (List.mem_append_left _ hname), fun name hname => h name (List.mem_append_right _ hname)⟩

theorem ne_dots_of_not_isHidden (h : isHidden name = false) : name ≠ here ∧ name ≠ above := by
  constructor
  · rintro rfl
    exact absurd h (by decide)
  · rintro rfl
    exact absurd h (by decide)

theorem join_ne_empty (hpath : path ≠ []) (hname : IsComponent name) : join path name ≠ [] := by
  obtain ⟨front, hjoin, -⟩ := exists_join hpath hname
  intro hempty
  simp [hempty] at hjoin

theorem under_concat (path : Path) (ns : List Path) (name : Path) :
    under path (ns ++ [name]) = join (under path ns) name := by
  rw [under, List.foldl_append]
  rfl

theorem under_ne_empty (hpath : path ≠ []) (hns : AreShown ns) : under path ns ≠ [] := by
  induction ns generalizing path with
  | nil => exact hpath
  | cons name ns ih => exact ih (join_ne_empty hpath (hns name List.mem_cons_self).1) hns.tail

theorem names_under (hpath : path ≠ []) (hns : AreShown ns) : names (under path ns) = names path ++ ns := by
  induction ns generalizing path with
  | nil => exact (List.append_nil _).symm
  | cons name ns ih =>
      obtain ⟨hname, -⟩ := hns name List.mem_cons_self
      rw [under, List.foldl_cons, ← under, ih (join_ne_empty hpath hname) hns.tail, names_join hpath hname,
        List.append_assoc]
      rfl

theorem isAbsolute_under (hpath : path ≠ []) (hns : AreShown ns) : isAbsolute (under path ns) = isAbsolute path := by
  induction ns generalizing path with
  | nil => rfl
  | cons name ns ih =>
      obtain ⟨hname, -⟩ := hns name List.mem_cons_self
      exact (ih (join_ne_empty hpath hname) hns.tail).trans (isAbsolute_join hpath hname)

theorem steps_under (hpath : path ≠ []) (hns : AreShown ns) (hne : ns ≠ []) :
    steps (under path ns) = names path ++ ns := by
  obtain ⟨init, name, rfl⟩ := (List.eq_nil_or_concat ns).resolve_left hne
  rw [List.concat_eq_append] at hns ⊢
  obtain ⟨hinit, hname⟩ := hns.of_append
  rw [under_concat, steps_join (under_ne_empty hpath hinit) (hname name (List.mem_singleton.2 rfl)).1,
    names_under hpath hinit, List.append_assoc]

theorem names_ne_nil (hpath : path ≠ []) (h : isAbsolute path = false) : names path ≠ [] := by
  cases path with
  | nil => exact absurd rfl hpath
  | cons b bs =>
      have hb : b ≠ slash := by simpa [isAbsolute] using h
      rw [names, splitSlash, if_neg hb]
      cases splitSlash bs <;> simp

theorem components_under (hpath : path ≠ []) (hns : AreShown ns) :
    components (under path ns) = components path ++ ns := by
  have hfilter : ns.filter (· != here) = ns :=
    List.filter_eq_self.2 fun name hname => by simpa using (ne_dots_of_not_isHidden (hns name hname).2).1
  rw [components, components, isAbsolute_under hpath hns, names_under hpath hns]
  cases habsolute : isAbsolute path with
  | true =>
      rw [List.filter_append, hfilter]
      rfl
  | false =>
      cases hnames : names path with
      | nil => exact absurd hnames (names_ne_nil hpath habsolute)
      | cons first rest =>
          change first :: (rest ++ ns).filter _ = first :: rest.filter _ ++ ns
          rw [List.filter_append, hfilter]
          rfl

def Precedes (path other : Path) : Prop := components path < components other

theorem Precedes.ne {other : Path} (h : Precedes path other) : path ≠ other := by
  rintro rfl
  exact List.lt_irrefl _ h

theorem precedes_under {other : Path} {ms : List Path} (hpath : path ≠ []) (hns : AreShown (name :: ns))
    (hms : AreShown (other :: ms)) (h : name < other) :
    Precedes (under path (name :: ns)) (under path (other :: ms)) := by
  rw [Precedes, components_under hpath hns, components_under hpath hms]
  exact List.append_left_lt (List.cons_lt_cons_iff.2 (.inl h))

/-- The extension stands after the last dot of the last name. A dot in first place starts none. -/
def HasExtension (path extension : Path) : Prop :=
  ∃ stem, fileName? path = some (stem ++ dot :: extension) ∧ stem ≠ [] ∧ dot ∉ extension

theorem extensionOf?_eq_some {extension : Path} : extensionOf? name = some extension ↔
    ∃ stem, name = stem ++ dot :: extension ∧ stem ≠ [] ∧ dot ∉ extension := by
  unfold extensionOf?
  dsimp only
  constructor
  · intro h
    split at h
    · cases h
    · next hstem =>
        cases h
        have hsplit := List.takeWhile_append_dropWhile (p := (· != dot)) (l := name.reverse)
        have hdot := List.head?_dropWhile_not (· != dot) name.reverse
        have htail : ∀ b ∈ name.reverse.takeWhile (· != dot), b ≠ dot := fun b hb => by
          simpa using List.mem_takeWhile_imp hb
        generalize name.reverse.takeWhile (· != dot) = tail at hsplit hstem htail ⊢
        generalize name.reverse.dropWhile (· != dot) = rest at hsplit hdot
        rw [← hsplit, ← List.drop_drop, List.drop_left] at hstem
        cases rest with
        | nil => exact absurd rfl hstem
        | cons b stem =>
            obtain rfl : b = dot := by simpa using hdot
            refine ⟨stem.reverse, ?_, ?_, ?_⟩
            · have hname := congrArg List.reverse hsplit.symm
              rw [List.reverse_reverse] at hname
              simp [hname]
            · simpa using hstem
            · simpa using fun h => htail dot h rfl
  · rintro ⟨stem, rfl, hstem, hdot⟩
    have hreverse : (stem ++ dot :: extension).reverse = extension.reverse ++ dot :: stem.reverse := by simp
    have htail : (extension.reverse ++ dot :: stem.reverse).takeWhile (· != dot) = extension.reverse := by
      rw [List.takeWhile_append_of_pos fun b hb => by simpa using fun h : b = dot => hdot (by simpa [h] using hb)]
      simp
    rw [hreverse, htail]
    simp [hstem]

theorem extension?_eq_some {extension : Path} : extension? path = some extension ↔ HasExtension path extension := by
  unfold extension? HasExtension
  rw [Option.bind_eq_some_iff]
  constructor
  · rintro ⟨name, hname, h⟩
    obtain ⟨stem, rfl, hstem, hdot⟩ := extensionOf?_eq_some.1 h
    exact ⟨stem, hname, hstem, hdot⟩
  · rintro ⟨stem, hname, hstem, hdot⟩
    exact ⟨_, hname, extensionOf?_eq_some.2 ⟨stem, rfl, hstem, hdot⟩⟩

end Path

namespace Disk

variable {d : Disk} {path : Path} {ns : List Path} {n : Nat} {here l : Location}

/-- The disk as a process sees it that may pass over the permission bits. -/
def elevated (d : Disk) : Disk := { d with privileged := true }

theorem admits_elevated (hdir : d.isDirectoryAt here) (step : Path) : d.elevated.Admits here step := by
  obtain ⟨e, he, -⟩ := (Option.any_eq_true _ _).1 hdir
  refine ⟨hdir, fun _ => ?_⟩
  change (d.entry? here).any (fun _ => true) = true
  rw [he]
  rfl

theorem Move.elevated {step : Path} {k : Nat} {mid : Location} {more : List Path} (h : Move d here step k mid more) :
    Move d.elevated here step k mid more := by
  cases h with
  | stay hstep => exact .stay hstep
  | up => exact .up
  | enter hstep he hlink => exact .enter hstep he hlink
  | through hstep he htarget => exact .through hstep he htarget

theorem Leads.elevated (h : Leads d n here ns l) : Leads d.elevated n here ns l := by
  induction h with
  | here l => exact .here l
  | step hdir hmove _ ih => exact .step (admits_elevated hdir.1 _) hmove.elevated ih

/-- The path leads to that place in the tree, however long it is, however many links are met and whoever follows
it. -/
def LeadsTo (d : Disk) (path : Path) (l : Location) : Prop :=
  ∃ n, Leads d.elevated n (d.start path) (Path.steps path) l

theorem start_under (hpath : path ≠ []) (hns : Path.AreShown ns) : d.start (Path.under path ns) = d.start path := by
  rw [start, Path.isAbsolute_under hpath hns, start]

theorem leadsTo_under (hpath : path ≠ []) (hns : Path.AreShown ns) (hhere : d.LeadsTo path here) :
    d.LeadsTo (Path.under path ns) l ↔ ∃ n, Leads d.elevated n here ns l := by
  obtain ⟨m, hhere⟩ := hhere
  cases ns with
  | nil =>
      constructor
      · rintro ⟨n, hl⟩
        obtain rfl := hhere.unique hl
        exact ⟨0, .here here⟩
      · rintro ⟨n, hl⟩
        obtain rfl := hl.unique (.here here)
        exact ⟨m, hhere⟩
  | cons name ns =>
      rw [LeadsTo, start_under hpath hns, Path.steps_under hpath hns (List.cons_ne_nil _ _)]
      constructor
      · rintro ⟨n, hl⟩
        obtain ⟨a, b, mid, -, hmid, hrest⟩ := hl.of_append
        obtain rfl := (leads_names hhere).unique hmid
        exact ⟨b, hrest⟩
      · rintro ⟨n, hl⟩
        exact ⟨m + n, (leads_names hhere).append hl⟩

theorem leadsTo_of_locate (h : d.locate path = .ok l) : d.LeadsTo path l := by
  obtain ⟨-, n, -, h⟩ := locate_eq_ok.1 h
  exact ⟨n, h.elevated⟩

end Disk

end Inlay
