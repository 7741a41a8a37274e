import Inlay.Proofs.Below
import Inlay.Proofs.Batch
import Inlay.Proofs.Hidden

namespace Inlay

namespace Disk

variable {d : Disk} {path directory name : Path} {extension : String} {ns : List Path} {n : Nat} {here l : Location}
  {stack : List Standing} {listed part : List Path} {c : Path × Entry} {fault : WalkError}

/-! ### The entries of a directory -/

theorem mem_children {e : Entry} : (name, e) ∈ d.children here ↔ d.entry? (here ++ [name]) = some e := by
  constructor
  · intro h
    exact (entry?_of_mem_children h).2
  · intro h
    unfold entry? at h
    rw [if_neg (by simp)] at h
    exact List.mem_filterMap.2 ⟨(here ++ [name], e), Table.mem_of_find h, by simp⟩

theorem compare_append (here l l' : Location) : compare (here ++ l) (here ++ l') = compare l l' := by
  induction here with
  | nil => rfl
  | cons name here ih => simpa using ih

theorem lt_of_compare {other : Path} (h : compare name other = .lt) : name < other := by
  induction name generalizing other with
  | nil =>
      cases other with
      | nil => cases h
      | cons b bs => exact List.nil_lt_cons b bs
  | cons b bs ih =>
      cases other with
      | nil => cases h
      | cons c cs =>
          rw [List.compare_cons_cons, Ordering.then_eq_lt] at h
          obtain h | ⟨h, hrest⟩ := h
          · exact List.cons_lt_cons_iff.2 (.inl (Std.compare_eq_lt.1 h))
          · exact List.cons_lt_cons_iff.2 (.inr ⟨Std.LawfulEqCmp.eq_of_compare h, ih hrest⟩)

theorem children_eq (d : Disk) (here : Location) : d.children here =
    d.entries.entries.filterMap fun e =>
      (e.1.getLast?.filter fun _ => e.1.dropLast = here).map fun name => (name, e.2) := by
  refine List.filterMap_congr fun e _ => ?_
  obtain ⟨key, e⟩ := e
  dsimp only
  cases key.getLast? with
  | none => rfl
  | some name => by_cases hdrop : key.dropLast = here <;> simp [hdrop, Option.filter]

theorem pairwise_children (d : Disk) (here : Location) : (d.children here).Pairwise fun c c' => c.1 < c'.1 := by
  have hkey {e : Location × Entry} {c : Path × Entry}
      (hc : (e.1.getLast?.filter fun _ => e.1.dropLast = here).map (fun name => (name, e.2)) = some c) :
      e.1 = here ++ [c.1] := by
    obtain ⟨name, hname, rfl⟩ := Option.map_eq_some_iff.1 hc
    obtain ⟨hlast, hdrop⟩ := Option.filter_eq_some_iff.1 hname
    have hdrop : e.1.dropLast = here := by simpa using hdrop
    rw [← hdrop]
    exact (List.dropLast_append_getLast? name hlast).symm
  rw [children_eq]
  refine List.pairwise_filterMap.2 (d.entries.increasing.imp fun {a b} hab c hc c' hc' => ?_)
  rw [hkey hc, hkey hc', compare_append] at hab
  exact lt_of_compare (by simpa using hab)

def foundAt (d : Disk) (l : Location) : Found :=
  if d.isDirectoryAt l then .directory l else if (d.entry? l).any Entry.isFile then .file else .other

theorem Leads.exists_child (h : Leads d.elevated n here (name :: ns) l) (hname : Path.IsComponent name)
    (hshown : Path.isHidden name = false) : d.isDirectoryAt here ∧ ∃ e, (name, e) ∈ d.children here := by
  obtain ⟨hdot, hdots⟩ := Path.ne_dots_of_not_isHidden hshown
  cases h with
  | step hdir hmove =>
      refine ⟨hdir.1, ?_⟩
      cases hmove with
      | stay hstep => exact absurd hstep (not_or.2 ⟨hdot, hname.1⟩)
      | up => exact absurd rfl hdots
      | enter _ he | through _ he => exact ⟨_, mem_children.2 he⟩

theorem Leads.isDirectoryAt_mid {mid : Location} (h : Leads d.elevated n mid ns l) (hl : d.isDirectoryAt l) :
    d.isDirectoryAt mid := by
  cases h with
  | here => exact hl
  | step hdir => exact hdir.1

theorem meet_of_not_link {e : Entry} (he : d.entry? (here ++ [name]) = some e) (hlink : ∀ target, e ≠ .link target) :
    d.meet stack here path name e = .ok (d.foundAt (here ++ [name])) := by
  rw [foundAt, isDirectoryAt, he]
  cases e with
  | link target => exact absurd rfl (hlink target)
  | file | directory | device => rfl

theorem leads_of_meet {found : Found} (hl : d.locate path = .ok here) (hdir : d.isDirectoryAt here)
    (hname : IsName c.1) (hshown : Path.AreShown [c.1]) (hc : c ∈ d.children here)
    (h : d.meet stack here (Path.join path c.1) c.1 c.2 = .ok found) :
    ∃ n l, Leads d.elevated n here [c.1] l ∧ found = d.foundAt l := by
  have hentry := mem_children.1 hc
  by_cases hlink : ∃ target, c.2 = .link target
  · obtain ⟨target, he⟩ := hlink
    obtain ⟨-, hne, -⟩ := checkPath_eq_ok (locate_eq_ok.1 hl).1
    rw [he, meet] at h
    cases hbelow : d.locate (Path.join path c.1) with
    | error cause =>
        rw [hbelow] at h
        cases h
    | ok l =>
        obtain ⟨n, hleads⟩ := (leadsTo_under hne hshown (leadsTo_of_locate hl)).1 (leadsTo_of_locate hbelow)
        refine ⟨n, l, hleads, ?_⟩
        rw [hbelow] at h
        dsimp only at h
        unfold foundAt
        split at h
        · next hdir =>
            split at h
            · cases h
            · split at h <;> cases h
              exact (if_pos hdir).symm
        · next hdir =>
            cases h
            exact (if_neg hdir).symm
  · have hlink : ∀ target, c.2 ≠ .link target := fun target he => hlink ⟨target, he⟩
    rw [meet_of_not_link hentry hlink] at h
    cases h
    exact ⟨0, _, .of_move (admits_elevated hdir _) (.enter hname hentry hlink), rfl⟩

theorem any_isFile_iff : (d.entry? l).any Entry.isFile ↔ d.IsFileAt l := by
  constructor
  · intro h
    obtain ⟨e, he, hfile⟩ := (Option.any_eq_true _ _).1 h
    cases e with
    | file mode content => exact ⟨mode, content, he⟩
    | directory | link | device => cases hfile
  · rintro ⟨mode, content, he⟩
    rw [he]
    rfl

/-! ### What a walk lists -/

theorem visit_eq_ok : d.visit extension stack path here = .ok listed ↔
    (∃ l, d.readDirectory path = .ok l) ∧
      ∃ parts, (d.children here).mapM (d.visitEntry extension stack path here) = .ok parts ∧ parts.flatten = listed := by
  rw [visit_eq]
  cases d.readDirectory path with
  | error fault =>
      refine ⟨nofun, ?_⟩
      rintro ⟨⟨l, hl⟩, -⟩
      cases hl
  | ok l =>
      change Except.map List.flatten _ = _ ↔ _
      rw [map_eq_ok]
      exact ⟨fun h => ⟨⟨l, rfl⟩, h⟩, And.right⟩

theorem exists_visitEntry (h : d.visit extension stack path here = .ok listed) (hc : c ∈ d.children here) :
    ∃ part, d.visitEntry extension stack path here c = .ok part ∧ part ⊆ listed := by
  obtain ⟨-, parts, hparts, rfl⟩ := visit_eq_ok.1 h
  obtain ⟨part, hpart, hc⟩ := exists_of_mapM_eq_ok hparts hc
  exact ⟨part, hc, fun f hf => List.mem_flatten.2 ⟨part, hpart, hf⟩⟩

/-- The path can be followed to the directory. -/
structure StandsAt (d : Disk) (path : Path) (here : Location) : Prop where
  locate : d.locate path = .ok here
  isDirectoryAt : d.isDirectoryAt here

theorem StandsAt.ne_nil (h : d.StandsAt path here) : path ≠ [] := (checkPath_eq_ok (locate_eq_ok.1 h.locate).1).2.1

theorem StandsAt.leadsTo (h : d.StandsAt path here) : d.LeadsTo path here := leadsTo_of_locate h.locate

theorem IsNamed.of_mem_children (hnamed : d.IsNamed) (hc : c ∈ d.children here) : IsName c.1 ∧ Path.IsComponent c.1 :=
  hnamed _ (entry?_of_mem_children hc).1 c.1 (by simp)

def listedAt (d : Disk) (extension : String) (path : Path) (l : Location) : List Path :=
  if (d.entry? l).any Entry.isFile ∧ Path.extension? path = some (Text.encode extension) then [path] else []

theorem mem_listedAt {f : Path} : f ∈ d.listedAt extension path l ↔
    f = path ∧ d.IsFileAt l ∧ Path.HasExtension path extension := by
  rw [listedAt, ← any_isFile_iff, ← Path.extension?_eq_some]
  split
  · next h => simp [h]
  · next h => exact ⟨nofun, fun hf => absurd hf.2 h⟩

theorem pairwise_listedAt (r : Path → Path → Prop) : (d.listedAt extension path l).Pairwise r := by
  unfold listedAt
  split
  · exact List.pairwise_singleton _ _
  · exact .nil

/-- What a walk makes of an entry of the directory at `here`. -/
inductive Listed (d : Disk) (extension : String) (stack : List Standing) (path : Path) (here : Location)
    (c : Path × Entry) : List Path → Prop
  | hidden (h : Path.isHidden c.1 = true) : Listed d extension stack path here c []
  | directory {n : Nat} {l : Location} {below : List Path} (hshown : Path.isHidden c.1 = false)
      (hleads : Leads d.elevated n here [c.1] l) (hmeet : d.meet stack here (Path.join path c.1) c.1 c.2 = .ok (.directory l))
      (hs : d.StandsAt (Path.join path c.1) l)
      (h : d.visit extension (⟨Path.join path c.1, l⟩ :: stack) (Path.join path c.1) l = .ok below) :
      Listed d extension stack path here c below
  | leaf {n : Nat} {l : Location} (hshown : Path.isHidden c.1 = false) (hleads : Leads d.elevated n here [c.1] l)
      (hdir : d.isDirectoryAt l = false) :
      Listed d extension stack path here c (d.listedAt extension (Path.join path c.1) l)

theorem listed_of_visitEntry (hnamed : d.IsNamed) (hs : d.StandsAt path here) (hc : c ∈ d.children here)
    (h : d.visitEntry extension stack path here c = .ok part) : d.Listed extension stack path here c part := by
  obtain ⟨hname, hcomponent⟩ := hnamed.of_mem_children hc
  unfold visitEntry at h
  cases hm : d.meet stack here (Path.join path c.1) c.1 c.2 with
  | error fault =>
      rw [hm] at h
      cases h
  | ok found =>
      rw [hm] at h
      dsimp only at h
      cases hhidden : Path.isHidden c.1 with
      | true =>
          rw [if_pos hhidden] at h
          cases h
          exact .hidden hhidden
      | false =>
          rw [if_neg (by simp [hhidden])] at h
          have hshown : Path.AreShown [c.1] := .cons hcomponent hhidden .nil
          obtain ⟨n, l, hleads, rfl⟩ := leads_of_meet hs.locate hs.isDirectoryAt hname hshown hc hm
          cases hdir : d.isDirectoryAt l with
          | true =>
              rw [foundAt, if_pos hdir] at h hm
              obtain ⟨l', hl'⟩ := locate_of_visit h
              obtain ⟨-, hunique⟩ :=
                directory_of_meet hs.locate hs.isDirectoryAt ⟨hname, hcomponent⟩ (mem_children.1 hc) hm
              obtain rfl := hunique l' hl'
              exact .directory hhidden hleads hm ⟨hl', hdir⟩ h
          | false =>
              have hpart : part = d.listedAt extension (Path.join path c.1) l := by
                rw [foundAt, if_neg (by simp [hdir])] at h
                unfold listedAt
                cases hfile : (d.entry? l).any Entry.isFile with
                | true => simpa [hfile, eq_comm] using h
                | false => simpa [hfile, eq_comm] using h
              rw [hpart]
              exact .leaf hhidden hleads hdir

theorem exists_of_mem_visitEntry (hnamed : d.IsNamed) (hs : d.StandsAt path here) (hc : c ∈ d.children here)
    (h : d.visitEntry extension stack path here c = .ok part) {f : Path} (hf : f ∈ part) :
    ∃ rest n l, f = Path.under path (c.1 :: rest) ∧ Path.AreShown (c.1 :: rest) ∧
      Leads d.elevated n here (c.1 :: rest) l ∧
      d.IsFileAt l ∧ Path.HasExtension f extension := by
  -- What is listed of an entry has been listed of an entry of the directory that it leads to, with less room.
  induction hroom : d.room stack here using Nat.strong_induction_on generalizing stack path here c part with
  | _ room ih =>
    have hcomponent := (hnamed.of_mem_children hc).2
    cases listed_of_visitEntry hnamed hs hc h with
    | hidden => cases hf
    | directory hshown hleads hmeet hbelow hvisit =>
        obtain ⟨-, parts, hparts, rfl⟩ := visit_eq_ok.1 hvisit
        obtain ⟨part, hpart, hf⟩ := List.mem_flatten.1 hf
        obtain ⟨c', hc', hpart⟩ := exists_of_mem_mapM hparts hpart
        obtain ⟨rest, n, target, rfl, hrest, hleads', hfile, hextension⟩ :=
          ih _ (hroom ▸ room_lt_of_meet hc hmeet) hbelow hc' hpart hf rfl
        exact ⟨c'.1 :: rest, _, target, rfl, .cons hcomponent hshown hrest,
          hleads.append hleads', hfile, hextension⟩
    | leaf hshown hleads =>
        obtain ⟨rfl, hfile, hextension⟩ := mem_listedAt.1 hf
        exact ⟨[], _, _, rfl, .cons hcomponent hshown .nil, hleads, hfile, hextension⟩

theorem exists_visit_under (hnamed : d.IsNamed) (hs : d.StandsAt path here)
    (h : d.visit extension stack path here = .ok listed) (hns : Path.AreShown ns) (hleads : Leads d.elevated n here ns l)
    (hl : d.isDirectoryAt l) :
    d.StandsAt (Path.under path ns) l ∧ ∃ stack below, d.visit extension stack (Path.under path ns) l = .ok below ∧
      below ⊆ listed := by
  induction ns generalizing path here n stack listed with
  | nil =>
      obtain rfl := hleads.unique (.here here)
      exact ⟨hs, stack, listed, h, List.Subset.refl listed⟩
  | cons name ns ih =>
      obtain ⟨hcomponent, hhidden⟩ := hns name List.mem_cons_self
      obtain ⟨-, e, hc⟩ := hleads.exists_child hcomponent hhidden
      obtain ⟨a, b, mid, -, hmid, hrest⟩ := hleads.of_cons
      obtain ⟨part, hpart, hsub⟩ := exists_visitEntry h hc
      cases listed_of_visitEntry hnamed hs hc hpart with
      | hidden hh => exact absurd hh (by simp [hhidden])
      | directory _ hmid' _ hbelow hvisit =>
          obtain rfl := hmid.unique hmid'
          obtain ⟨hstands, stack, below, hvisit, hsub'⟩ := ih hbelow hvisit hns.tail hrest
          exact ⟨hstands, stack, below, hvisit, List.Subset.trans hsub' hsub⟩
      | leaf _ hmid' hdir =>
          obtain rfl := hmid.unique hmid'
          rw [hrest.isDirectoryAt_mid hl] at hdir
          cases hdir

theorem mem_visit (hnamed : d.IsNamed) (hs : d.StandsAt path here) (h : d.visit extension stack path here = .ok listed)
    (hne : ns ≠ []) (hns : Path.AreShown ns) (hleads : Leads d.elevated n here ns l) (hfile : d.IsFileAt l)
    (hextension : Path.HasExtension (Path.under path ns) extension) : Path.under path ns ∈ listed := by
  obtain ⟨init, name, rfl⟩ := (List.eq_nil_or_concat ns).resolve_left hne
  rw [List.concat_eq_append] at hns hleads hextension ⊢
  obtain ⟨hinit, hlast⟩ := hns.of_append
  obtain ⟨hcomponent, hhidden⟩ := hlast name (List.mem_singleton.2 rfl)
  obtain ⟨a, b, dir, -, hdir, hname⟩ := hleads.of_append
  obtain ⟨hisDir, e, hc⟩ := hname.exists_child hcomponent hhidden
  obtain ⟨hstands, stack, below, hvisit, hsub⟩ := exists_visit_under hnamed hs h hinit hdir hisDir
  obtain ⟨part, hpart, hsub'⟩ := exists_visitEntry hvisit hc
  rw [Path.under_concat] at hextension ⊢
  cases listed_of_visitEntry hnamed hstands hc hpart with
  | hidden hh => exact absurd hh (by simp [hhidden])
  | directory _ hname' _ hbelow =>
      obtain rfl := hname.unique hname'
      have hnot := hfile.not_isDirectoryAt
      rw [hbelow.isDirectoryAt] at hnot
      cases hnot
  | leaf _ hname' =>
      obtain rfl := hname.unique hname'
      exact hsub (hsub' (mem_listedAt.2 ⟨rfl, hfile, hextension⟩))

theorem pairwise_visit (hnamed : d.IsNamed) (hs : d.StandsAt path here)
    (h : d.visit extension stack path here = .ok listed) : listed.Pairwise Path.Precedes := by
  induction hroom : d.room stack here using Nat.strong_induction_on generalizing stack path here listed with
  | _ room ih =>
    obtain ⟨-, parts, hparts, rfl⟩ := visit_eq_ok.1 h
    -- Within an entry the paths are in order; between two entries the first names differ.
    refine List.pairwise_flatten.2 ⟨fun part hpart => ?_, ?_⟩
    · obtain ⟨c, hc, hpart⟩ := exists_of_mem_mapM hparts hpart
      cases listed_of_visitEntry hnamed hs hc hpart with
      | hidden => exact .nil
      | directory _ _ hmeet hbelow hvisit => exact ih _ (hroom ▸ room_lt_of_meet hc hmeet) hbelow hvisit rfl
      | leaf => exact pairwise_listedAt _
    · refine pairwise_of_mapM hparts (d.pairwise_children here) ?_
      intro c hc c' hc' hlt part part' hpart hpart' f hf f' hf'
      obtain ⟨rest, -, -, rfl, hshown, -⟩ := exists_of_mem_visitEntry hnamed hs hc hpart hf
      obtain ⟨rest', -, -, rfl, hshown', -⟩ := exists_of_mem_visitEntry hnamed hs hc' hpart' hf'
      exact Path.precedes_under hs.ne_nil hshown hshown' hlt

/-! ### How far a walk goes -/

/-- The directories that a walk can stand in, from the innermost one out. -/
inductive Stands (d : Disk) (directory : Path) : List Standing → Prop
  | start {l : Location} (h : d.StandsAt directory l) : Stands d directory [⟨directory, l⟩]
  | enter {s : Standing} {stack : List Standing} {c : Path × Entry} {l : Location}
      (h : Stands d directory (s :: stack)) (hc : c ∈ d.children s.location) (hshown : Path.isHidden c.1 = false)
      (hmeet : d.meet (s :: stack) s.location (Path.join s.path c.1) c.1 c.2 = .ok (.directory l)) :
      Stands d directory (⟨Path.join s.path c.1, l⟩ :: s :: stack)

theorem Stands.length_add_room_le {s : Standing} (h : d.Stands directory (s :: stack)) :
    (s :: stack).length + d.room (s :: stack) s.location ≤ (d.entries.size + 1) * (d.depth + 1) + d.depth + 1 := by
  generalize hall : s :: stack = all at h
  induction h generalizing s stack with
  | @start l =>
      cases hall
      have hunvisited : (d.unvisited [⟨directory, l⟩]).length ≤ d.entries.size + 1 := by
        refine (List.length_filter_le _ _).trans ?_
        simp [Table.keys, Table.size]
      have := Nat.mul_le_mul_right (d.depth + 1) hunvisited
      simp only [room, List.length_singleton]
      omega
  | enter _ hc _ hmeet ih =>
      cases hall
      -- The directory that is entered takes some of the room that was left.
      have := room_lt_of_meet hc hmeet
      have := ih rfl
      simp only [List.length_cons] at this ⊢
      omega

/-! ### Trees without links -/

/-- The names lead down from the directory at `here` by directories, none of the names hidden. -/
def HasBelow (d : Disk) (here : Location) (ns : List Path) : Prop :=
  Path.AreShown ns ∧ ∀ init, init <+: ns → d.isDirectoryAt (here ++ init)

/-- What keeps a process from opening the directory below `here` that the names lead to: its path is too long, or
there is no right to read it, or none to search a directory above it. -/
inductive IsShut (d : Disk) (path : Path) (here : Location) (ns : List Path) : IoError → Prop
  | long (h : maxPathBytes < (Path.under path ns).length) : IsShut d path here ns .nameTooLong
  | unread (h : d.grantsAt .read (here ++ ns) = false) : IsShut d path here ns .notPermitted
  | unsearched {init : List Path} (hinit : init <+: ns) (hne : init ≠ ns)
      (h : d.grantsAt .search (here ++ init) = false) : IsShut d path here ns .notPermitted

theorem hasBelow_cons : d.HasBelow here (name :: ns) ↔
    d.isDirectoryAt here ∧ Path.AreShown [name] ∧ d.HasBelow (here ++ [name]) ns := by
  constructor
  · rintro ⟨hshown, hdir⟩
    obtain ⟨hname, -⟩ : Path.AreShown [name] ∧ Path.AreShown ns := Path.AreShown.of_append hshown
    refine ⟨by simpa using hdir [] List.nil_prefix, hname, hshown.tail, fun init hinit => ?_⟩
    simpa using hdir (name :: init) (List.cons_prefix_cons.2 ⟨rfl, hinit⟩)
  · rintro ⟨hdir, hname, hshown, hbelow⟩
    refine ⟨hname.append hshown, fun init hinit => ?_⟩
    cases init with
    | nil => simpa using hdir
    | cons other init =>
        obtain ⟨rfl, htail⟩ := List.cons_prefix_cons.1 hinit
        simpa using hbelow init htail

theorem isShut_cons {cause : IoError} : d.IsShut path here (name :: ns) cause ↔
    d.IsShut (Path.join path name) (here ++ [name]) ns cause ∨
      cause = .notPermitted ∧ d.grantsAt .search here = false := by
  constructor
  · intro h
    cases h with
    | long h => exact .inl (.long h)
    | unread h => exact .inl (.unread (by simpa using h))
    | @unsearched init hinit hne h =>
        cases init with
        | nil => exact .inr ⟨rfl, by simpa using h⟩
        | cons other init =>
            obtain ⟨rfl, htail⟩ := List.cons_prefix_cons.1 hinit
            exact .inl (.unsearched htail (fun h => hne (h ▸ rfl)) (by simpa using h))
  · rintro (h | ⟨rfl, h⟩)
    · cases h with
      | long h => exact .long h
      | unread h => exact .unread (by simpa using h)
      | unsearched hinit hne h =>
          exact .unsearched (List.cons_prefix_cons.2 ⟨rfl, hinit⟩) (by simpa using hne) (by simpa using h)
    · exact .unsearched List.nil_prefix (List.cons_ne_nil _ _).symm (by simpa using h)

theorem lt_of_checkPath (h : checkPath path = .error .nameTooLong) : maxPathBytes < path.length := by
  unfold checkPath at h
  split at h
  · cases h
  · split at h
    · cases h
    · split at h
      · next hsize => exact hsize
      · cases h

theorem isDirectoryAt_iff : d.isDirectoryAt l ↔ ∃ mode, d.entry? l = some (.directory mode) := by
  constructor
  · intro h
    obtain ⟨e, he, hdir⟩ := (Option.any_eq_true _ _).1 h
    cases e with
    | directory mode => exact ⟨mode, he⟩
    | file | link | device => cases hdir
  · rintro ⟨mode, he⟩
    rw [isDirectoryAt, he]
    rfl

theorem locate_child (hs : d.StandsAt path here) (hname : IsName name ∧ Path.IsComponent name) {e : Entry}
    (he : d.entry? (here ++ [name]) = some e) (hlink : ∀ target, e ≠ .link target) :
    d.locate (Path.join path name) = .ok (here ++ [name]) ∨
      ∃ cause, d.locate (Path.join path name) = .error cause ∧ d.IsShut path here [name] cause := by
  obtain ⟨-, htext | htext⟩ := checkPath_join (locate_eq_ok.1 hs.locate).1 hname.2
  · cases hsearch : d.grantsAt .search here with
    | true => exact .inl (locate_join hs.locate ⟨hs.isDirectoryAt, hsearch⟩ hname he hlink htext)
    | false =>
        exact .inr ⟨_, locate_join_of_not_search hs.locate hs.isDirectoryAt hsearch hname htext,
          isShut_cons.2 (.inr ⟨rfl, hsearch⟩)⟩
  · refine .inr ⟨.nameTooLong, ?_, .long (lt_of_checkPath htext)⟩
    rw [locate, htext]
    rfl

theorem isDirectory_of_visitEntry_eq_error (hlink : ∀ target, c.2 ≠ .link target)
    (h : d.visitEntry extension stack path here c = .error fault) :
    Path.isHidden c.1 = false ∧ (∃ mode, c.2 = .directory mode) ∧
      d.visit extension (⟨Path.join path c.1, here ++ [c.1]⟩ :: stack) (Path.join path c.1) (here ++ [c.1]) =
        .error fault := by
  obtain ⟨name, e⟩ := c
  unfold visitEntry at h
  cases hhidden : Path.isHidden name with
  | true =>
      cases e with
      | link target => exact absurd rfl (hlink target)
      | file | directory | device => simp [meet, hhidden] at h
  | false =>
      cases e with
      | link target => exact absurd rfl (hlink target)
      | file | device => simp [meet, hhidden] at h
      | directory mode => exact ⟨rfl, ⟨mode, rfl⟩, by simpa [meet, hhidden] using h⟩

theorem exists_isShut_of_visit_eq_error (hnamed : d.IsNamed) (hs : d.StandsAt path here)
    (hlink : ∀ below target, d.entry? (here ++ below) ≠ some (.link target))
    (h : d.visit extension stack path here = .error fault) :
    ∃ ns cause, d.HasBelow here ns ∧ d.IsShut path here ns cause ∧ fault = .io (Path.under path ns) cause := by
  induction hroom : d.room stack here using Nat.strong_induction_on generalizing stack path here with
  | _ room ih =>
    have hself : d.HasBelow here [] := by
      refine ⟨.nil, fun init hinit => ?_⟩
      obtain rfl := List.prefix_nil.1 hinit
      simpa using hs.isDirectoryAt
    rw [visit_eq, readDirectory, hs.locate] at h
    dsimp only at h
    cases hread : d.grantsAt .read here with
    | false =>
        rw [hread, if_neg (by simp)] at h
        cases h
        exact ⟨[], _, hself, .unread (by simpa using hread), rfl⟩
    | true =>
        rw [hread, if_pos rfl] at h
        cases hparts : (d.children here).mapM (d.visitEntry extension stack path here) with
        | ok parts =>
            rw [hparts] at h
            cases h
        | error fault' =>
            rw [hparts] at h
            cases h
            obtain ⟨c, hc, hfault⟩ := exists_of_mapM_eq_error hparts
            have hentry := mem_children.1 hc
            have hname := hnamed.of_mem_children hc
            have hlink' : ∀ target, c.2 ≠ .link target := fun target he => hlink [c.1] target (he ▸ hentry)
            obtain ⟨hhidden, ⟨mode, he⟩, hvisit⟩ := isDirectory_of_visitEntry_eq_error hlink' hfault
            have hshown : Path.AreShown [c.1] := .cons hname.2 hhidden .nil
            have hdir : d.isDirectoryAt (here ++ [c.1]) := isDirectoryAt_iff.2 ⟨mode, he ▸ hentry⟩
            obtain hl | ⟨cause, hl, hshut⟩ := locate_child hs hname hentry hlink'
            · have hroom' : d.room (⟨Path.join path c.1, here ++ [c.1]⟩ :: stack) (here ++ [c.1]) < room := by
                refine hroom ▸ room_lt_of_meet hc ?_
                rw [he]
                rfl
              obtain ⟨ns, cause, hbelow, hshut, rfl⟩ := ih _ hroom' ⟨hl, hdir⟩
                (fun below => by simpa using hlink (c.1 :: below)) hvisit rfl
              exact ⟨c.1 :: ns, cause, hasBelow_cons.2 ⟨hs.isDirectoryAt, hshown, hbelow⟩, isShut_cons.2 (.inl hshut), rfl⟩
            · rw [visit_eq, readDirectory, hl] at hvisit
              cases hvisit
              refine ⟨[c.1], cause, hasBelow_cons.2 ⟨hs.isDirectoryAt, hshown, .nil, fun init hinit => ?_⟩, hshut, rfl⟩
              obtain rfl := List.prefix_nil.1 hinit
              simpa using hdir

theorem not_isShut_of_visit (hnamed : d.IsNamed) (hs : d.StandsAt path here) (hbelow : d.HasBelow here ns)
    (h : d.visit extension stack path here = .ok listed) (cause : IoError) : ¬d.IsShut path here ns cause := by
  induction ns generalizing path here stack listed with
  | nil =>
      obtain ⟨⟨l, hl⟩, -⟩ := visit_eq_ok.1 h
      obtain ⟨hl, hread⟩ := readDirectory_eq_ok.1 hl
      obtain rfl := Except.ok.inj (hl.symm.trans hs.locate)
      intro hshut
      cases hshut with
      | long hsize => exact absurd (checkPath_eq_ok (locate_eq_ok.1 hl).1).2.2 (Nat.not_le.2 hsize)
      | unread h => simp [hread] at h
      | unsearched hinit hne => exact hne (List.prefix_nil.1 hinit)
  | cons name ns ih =>
      obtain ⟨-, hshown, hbelow⟩ := hasBelow_cons.1 hbelow
      obtain ⟨-, hhidden⟩ := hshown name (List.mem_singleton.2 rfl)
      have hdir : d.isDirectoryAt (here ++ [name]) := by simpa using hbelow.2 [] List.nil_prefix
      obtain ⟨mode, hentry⟩ := isDirectoryAt_iff.1 hdir
      have hc := mem_children.2 hentry
      obtain ⟨part, hpart, -⟩ := exists_visitEntry h hc
      simp only [visitEntry, meet, hhidden, Bool.false_eq_true, if_false] at hpart
      have hname := hnamed.of_mem_children hc
      obtain ⟨l, hl⟩ := locate_of_visit hpart
      obtain hl' | ⟨cause', hl', -⟩ := locate_child hs hname hentry fun target he => by cases he
      · rw [isShut_cons, not_or]
        refine ⟨ih ⟨hl', hdir⟩ hbelow hpart, ?_⟩
        rintro ⟨-, hsearch⟩
        rw [locate_join_of_not_search hs.locate hs.isDirectoryAt hsearch hname (locate_eq_ok.1 hl).1] at hl
        cases hl
      · rw [hl'] at hl
        cases hl

/-! ### The listing -/

theorem LeadsTo.unique {l' : Location} (h : d.LeadsTo path l) (h' : d.LeadsTo path l') : l = l' := by
  obtain ⟨n, h⟩ := h
  obtain ⟨m, h'⟩ := h'
  exact h.unique h'

theorem isDirectory_iff : d.isDirectory path ↔ ∃ l, d.StandsAt path l := by
  constructor
  · intro h
    cases hl : d.locate path with
    | error cause =>
        rw [isDirectory, stat, hl] at h
        cases h
    | ok l =>
        rw [isDirectory_of_locate hl] at h
        exact ⟨l, hl, h⟩
  · rintro ⟨l, h⟩
    rw [isDirectory_of_locate h.locate]
    exact h.isDirectoryAt

theorem files_of_standsAt (hs : d.StandsAt directory here) :
    d.files directory extension =
      if d.isLink directory && !d.grantsAt .read here then .error (.opening .notPermitted)
      else d.visit extension [⟨directory, here⟩] directory here := by
  rw [files, hs.locate]
  exact if_pos hs.isDirectoryAt

theorem visit_of_files_eq_ok (hs : d.StandsAt directory here) (h : d.files directory extension = .ok listed) :
    d.visit extension [⟨directory, here⟩] directory here = .ok listed := by
  rw [files_of_standsAt hs] at h
  split at h
  · cases h
  · exact h

theorem files_of_not_isDirectoryAt (hl : d.locate directory = .ok l) (hdir : d.isDirectoryAt l = false) :
    d.files directory extension = .ok (d.listedAt extension directory l) := by
  have hfile : d.isFile directory = (d.entry? l).any Entry.isFile := by
    rw [isFile, stat_of_locate hl]
    cases d.entry? l <;> rfl
  rw [files, hl]
  dsimp only
  rw [hdir, if_neg (by simp), hfile, listedAt]
  simp only [Bool.and_eq_true, decide_eq_true_eq]

/-- A path from the directory by directories, and by names that are not hidden. The path of the directory itself
is one. -/
def IsShownBelow (d : Disk) (directory path : Path) : Prop :=
  ∃ ns, path = Path.under directory ns ∧ Path.AreShown ns ∧
    ∀ init, init <+: ns → init ≠ ns → d.isDirectory (Path.under directory init)

/-- What is to be listed: the paths that lead to regular files with the extension. -/
def Lists (d : Disk) (directory : Path) (extension : String) (path : Path) : Prop :=
  d.IsShownBelow directory path ∧ (∃ l, d.LeadsTo path l ∧ d.IsFileAt l) ∧ Path.HasExtension path extension

theorem mem_visit_iff (hnamed : d.IsNamed) (hs : d.StandsAt directory here)
    (h : d.visit extension [⟨directory, here⟩] directory here = .ok listed) :
    path ∈ listed ↔ d.Lists directory extension path := by
  constructor
  · intro hpath
    obtain ⟨-, parts, hparts, rfl⟩ := visit_eq_ok.1 h
    obtain ⟨part, hpart, hmem⟩ := List.mem_flatten.1 hpath
    obtain ⟨c, hc, hpart⟩ := exists_of_mem_mapM hparts hpart
    obtain ⟨rest, n, l, rfl, hshown, hleads, hfile, hextension⟩ := exists_of_mem_visitEntry hnamed hs hc hpart hmem
    have hl : d.LeadsTo (Path.under directory (c.1 :: rest)) l :=
      (leadsTo_under hs.ne_nil hshown hs.leadsTo).2 ⟨n, hleads⟩
    refine ⟨⟨c.1 :: rest, rfl, hshown, ?_⟩, ⟨l, hl, hfile⟩, hextension⟩
    rintro init ⟨tail, htail⟩ hne
    rw [← htail] at hshown hleads hne
    obtain ⟨a, b, mid, -, hinit, hrest⟩ := hleads.of_append
    have hmid : d.isDirectoryAt mid := by
      cases hrest with
      | here => simp at hne
      | step hmid => exact hmid.1
    exact isDirectory_iff.2 ⟨mid, (exists_visit_under hnamed hs h hshown.of_append.1 hinit hmid).1⟩
  · rintro ⟨⟨ns, rfl, hshown, -⟩, ⟨l, hl, hfile⟩, hextension⟩
    obtain ⟨n, hleads⟩ := (leadsTo_under hs.ne_nil hshown hs.leadsTo).1 hl
    refine mem_visit hnamed hs h ?_ hshown hleads hfile hextension
    rintro rfl
    obtain rfl := hleads.unique (.here here)
    have hnot := hfile.not_isDirectoryAt
    rw [hs.isDirectoryAt] at hnot
    cases hnot

theorem mem_listedAt_iff (hl : d.locate directory = .ok l) (hdir : d.isDirectoryAt l = false) :
    path ∈ d.listedAt extension directory l ↔ d.Lists directory extension path := by
  rw [mem_listedAt]
  constructor
  · rintro ⟨rfl, hfile, hextension⟩
    refine ⟨⟨[], rfl, .nil, ?_⟩, ⟨l, leadsTo_of_locate hl, hfile⟩, hextension⟩
    intro init hinit hne
    exact absurd (List.prefix_nil.1 hinit) hne
  · rintro ⟨⟨ns, rfl, hshown, hproper⟩, ⟨l', hl', hfile⟩, hextension⟩
    have hns : ns = [] := by
      by_contra hne
      have hisDir : d.isDirectory directory := hproper [] List.nil_prefix (Ne.symm hne)
      rw [isDirectory_of_locate hl, hdir] at hisDir
      cases hisDir
    subst hns
    obtain rfl := (leadsTo_of_locate hl).unique hl'
    exact ⟨rfl, hfile, hextension⟩

theorem mem_files (hnamed : d.IsNamed) (h : d.files directory extension = .ok listed) :
    path ∈ listed ↔ d.Lists directory extension path := by
  cases hl : d.locate directory with
  | error cause =>
      rw [files, hl] at h
      cases h
  | ok here =>
      cases hdir : d.isDirectoryAt here with
      | true =>
          exact mem_visit_iff hnamed ⟨hl, hdir⟩ (visit_of_files_eq_ok ⟨hl, hdir⟩ h)
      | false =>
          rw [files_of_not_isDirectoryAt hl hdir] at h
          cases h
          exact mem_listedAt_iff hl hdir

theorem mem_files_of_not_isBarred (hnamed : d.IsNamed) (h : d.files directory extension = .ok listed)
    (hbarred : ¬d.IsBarred path) :
    path ∈ listed ↔ d.IsShownBelow directory path ∧ d.isFile path ∧ Path.HasExtension path extension := by
  constructor
  · intro hpath
    obtain ⟨hshown, -, hextension⟩ := (mem_files hnamed h).1 hpath
    obtain hfile | ⟨-, hbarred'⟩ := isListable_of_mem_files hnamed h path hpath
    · exact ⟨hshown, hfile, hextension⟩
    · exact absurd hbarred' hbarred
  · rintro ⟨hshown, hfile, hextension⟩
    obtain ⟨l, hl, hfile⟩ := isFile_iff.1 hfile
    exact (mem_files hnamed h).2 ⟨hshown, ⟨l, leadsTo_of_locate hl, hfile⟩, hextension⟩

theorem pairwise_files (hnamed : d.IsNamed) (h : d.files directory extension = .ok listed) :
    listed.Pairwise Path.Precedes := by
  cases hl : d.locate directory with
  | error cause =>
      rw [files, hl] at h
      cases h
  | ok here =>
      cases hdir : d.isDirectoryAt here with
      | true =>
          exact pairwise_visit hnamed ⟨hl, hdir⟩ (visit_of_files_eq_ok ⟨hl, hdir⟩ h)
      | false =>
          rw [files_of_not_isDirectoryAt hl hdir] at h
          cases h
          exact pairwise_listedAt _

theorem not_isShut_of_files (hnamed : d.IsNamed) (hs : d.StandsAt directory here)
    (h : d.files directory extension = .ok listed) (hbelow : d.HasBelow here ns) (cause : IoError) :
    ¬d.IsShut directory here ns cause :=
  not_isShut_of_visit hnamed hs hbelow (visit_of_files_eq_ok hs h) cause

theorem exists_isShut_of_files (hnamed : d.IsNamed) (hs : d.StandsAt directory here)
    (hlink : ∀ below target, d.entry? (here ++ below) ≠ some (.link target))
    (h : d.files directory extension = .error fault) :
    ∃ ns cause, d.HasBelow here ns ∧ d.IsShut directory here ns cause ∧
      (fault = .io (Path.under directory ns) cause ∨ ns = [] ∧ fault = .opening cause) := by
  rw [files_of_standsAt hs] at h
  split at h
  · next hread =>
      cases h
      refine ⟨[], .notPermitted, ⟨.nil, fun init hinit => ?_⟩, .unread ?_, .inr ⟨rfl, rfl⟩⟩
      · obtain rfl := List.prefix_nil.1 hinit
        simpa using hs.isDirectoryAt
      · simpa using (Bool.and_eq_true_iff.1 hread).2
  · obtain ⟨ns, cause, hbelow, hshut, hfault⟩ := exists_isShut_of_visit_eq_error hnamed hs hlink h
    exact ⟨ns, cause, hbelow, hshut, .inl hfault⟩

end Disk

theorem listFiles_eq_ok {d : Disk} {directory : Path} {extension : String} {listed : List Path} :
    listFiles d directory extension = .ok listed ↔ d.files directory extension = .ok listed := by
  unfold listFiles
  cases d.files directory extension with
  | error fault => exact ⟨nofun, nofun⟩
  | ok files =>
      constructor <;>
      · intro h
        cases h
        rfl

theorem listFiles_of_error {d : Disk} {directory : Path} {extension : String} {fault : WalkError}
    (h : d.files directory extension = .error fault) :
    listFiles d directory extension = .error (.readFailure (fault.path?.getD directory) (.walk fault)) := by
  rw [listFiles, h]

theorem exists_of_listFiles_eq_error {d : Disk} {directory : Path} {extension : String} {e : Error}
    (h : listFiles d directory extension = .error e) :
    ∃ fault, d.files directory extension = .error fault ∧
      e = .readFailure (fault.path?.getD directory) (.walk fault) := by
  cases hfiles : d.files directory extension with
  | error fault => exact ⟨fault, rfl, Except.error.inj (h.symm.trans (listFiles_of_error hfiles))⟩
  | ok listed => cases h.symm.trans (listFiles_eq_ok.2 hfiles)

/-- A listing has what is to be listed, each path once and in the order of the components, and a walk never
stands in more directories than the tree has room for. Where no links lie below the directory only a directory
that is shut off stops the walk, and the failure names it. -/
theorem listing_complete_and_ordered {d : Disk} (hnamed : d.IsNamed) (directory : Path) (extension : String) :
    (∀ listed, listFiles d directory extension = .ok listed →
      (∀ path, path ∈ listed ↔ d.Lists directory extension path) ∧
      (∀ path, ¬d.IsBarred path →
        (path ∈ listed ↔ d.IsShownBelow directory path ∧ d.isFile path ∧ Path.HasExtension path extension)) ∧
      listed.Pairwise Path.Precedes ∧ listed.Nodup) ∧
    (∀ stack, d.Stands directory stack → stack.length ≤ (d.entries.size + 1) * (d.depth + 1) + d.depth + 1) ∧
    ∀ here, d.StandsAt directory here → (∀ below target, d.entry? (here ++ below) ≠ some (.link target)) →
      ((∃ listed, listFiles d directory extension = .ok listed) ↔
        ∀ ns cause, d.HasBelow here ns → ¬d.IsShut directory here ns cause) ∧
      ∀ e, listFiles d directory extension = .error e → ∃ ns cause fault, d.HasBelow here ns ∧
        d.IsShut directory here ns cause ∧ e = .readFailure (Path.under directory ns) (.walk fault) ∧
        (fault = .io (Path.under directory ns) cause ∨ ns = [] ∧ fault = .opening cause) := by
  refine ⟨fun listed h => ?_, fun stack h => ?_, fun here hs hlink => ⟨⟨?_, fun hopen => ?_⟩, fun e h => ?_⟩⟩
  · rw [listFiles_eq_ok] at h
    have hincreasing := Disk.pairwise_files hnamed h
    exact ⟨fun path => Disk.mem_files hnamed h, fun path hbarred => Disk.mem_files_of_not_isBarred hnamed h hbarred,
      hincreasing, hincreasing.imp Path.Precedes.ne⟩
  · cases stack with
    | nil => exact Nat.zero_le _
    | cons s stack => exact (Nat.le_add_right _ _).trans h.length_add_room_le
  · rintro ⟨listed, h⟩ ns cause hbelow
    exact Disk.not_isShut_of_files hnamed hs (listFiles_eq_ok.1 h) hbelow cause
  · cases h : listFiles d directory extension with
    | ok listed => exact ⟨listed, rfl⟩
    | error e =>
        obtain ⟨fault, hfault, -⟩ := exists_of_listFiles_eq_error h
        obtain ⟨ns, cause, hbelow, hshut, -⟩ := Disk.exists_isShut_of_files hnamed hs hlink hfault
        exact absurd hshut (hopen ns cause hbelow)
  · obtain ⟨fault, hfault, rfl⟩ := exists_of_listFiles_eq_error h
    obtain ⟨ns, cause, hbelow, hshut, hfault⟩ := Disk.exists_isShut_of_files hnamed hs hlink hfault
    refine ⟨ns, cause, fault, hbelow, hshut, ?_, hfault⟩
    obtain rfl | ⟨rfl, rfl⟩ := hfault <;> rfl

namespace Disk

/-- A directory `p` with a directory `q` of one file in it. -/
def nested : Disk :=
  { entries := ⟨[(["p"], .directory 0o755), (["p", "q"], .directory 0o755), (["p", "q", "a.fusion"], .file 0o644 [])],
      by decide⟩
    workingDirectory := [] }

def unreadable : Disk :=
  { entries := ⟨[(["p"], .directory 0o755), (["p", "q"], .directory 0o300), (["p", "q", "a.fusion"], .file 0o644 [])],
      by decide⟩
    workingDirectory := [] }

def dotted : Disk := { entries := ⟨[([".fusion"], .file 0o644 [])], by decide⟩, workingDirectory := [] }

def blurredName : Path := 0x2E :: 0xFF :: Text.encode ".fusion"

def blurred : Disk :=
  { entries := ⟨[(["p"], .directory 0o755), (["p", blurredName], .file 0o644 [])], by decide⟩, workingDirectory := [] }

theorem standsAt_p {d : Disk} {mode : Nat} (hstart : d.workingDirectory = []) (hp : d.entry? ["p"] = some (.directory mode))
    (hread : d.grantsAt .read ["p"]) : d.StandsAt "p" ["p"] :=
  ⟨(readDirectory_eq_ok.1 (readDirectory_p hstart hp hread)).1, isDirectoryAt_iff.2 ⟨mode, hp⟩⟩

theorem files_of_shut {d : Disk} {path : Path} {mode : Nat} {cause : IoError} (hs : d.StandsAt path ["p"])
    (hread : d.grantsAt .read ["p"])
    (hchildren : d.children ["p"] = [(("q" : Path), .directory mode)])
    (hshut : d.readDirectory (Path.join path "q") = .error (.io (Path.join path "q") cause)) :
    d.files path "fusion" = .error (.io (Path.join path "q") cause) := by
  have hhidden : Path.isHidden "q" = false := by decide
  have hentry : d.visitEntry "fusion" [⟨path, ["p"]⟩] path ["p"] ("q", .directory mode) =
      .error (.io (Path.join path "q") cause) := by
    simp only [visitEntry, meet, hhidden, Bool.false_eq_true, if_false]
    rw [visit_eq, hshut]
  rw [files_of_standsAt hs, hread, if_neg (by simp), visit_eq, readDirectory_eq_ok.2 ⟨hs.locate, hread⟩]
  dsimp only
  rw [hchildren, List.mapM_cons, hentry]
  rfl

theorem listFiles_of_shut {d : Disk} {path : Path} {mode : Nat} {cause : IoError} (hs : d.StandsAt path ["p"])
    (hread : d.grantsAt .read ["p"]) (hchildren : d.children ["p"] = [(("q" : Path), .directory mode)])
    (hshut : d.readDirectory (Path.join path "q") = .error (.io (Path.join path "q") cause)) :
    listFiles d path "fusion" = .error (.readFailure (Path.join path "q") (.walk (.io (Path.join path "q") cause))) := by
  rw [listFiles, files_of_shut hs hread hchildren hshut]
  rfl

theorem readDirectory_unreadable : unreadable.readDirectory "p/q" = .error (.io "p/q" .notPermitted) := by
  have hsteps : Path.steps "p/q" = [("p" : Path), "q"] := by decide
  have hleads : Leads unreadable 0 [] (Path.steps "p/q") ["p", "q"] := by
    rw [hsteps]
    exact (Leads.of_move (admits_root _ _) (.enter (by decide) rfl fun _ he => Entry.noConfusion he)).append
      (.of_move (by decide) (.enter (by decide) rfl fun _ he => Entry.noConfusion he))
  rw [readDirectory, locate_eq_ok.2 ⟨rfl, 0, by decide, hleads⟩]
  rfl

theorem files_blurred : blurred.files "p" "fusion" = .ok [Path.join "p" blurredName] := by
  rw [files_p rfl rfl (by decide)]
  rfl

theorem files_dotted : dotted.files ".fusion" "fusion" = .ok [] := by
  have hlocate : dotted.locate ".fusion" = .ok [".fusion"] := by
    have hsteps : Path.steps ".fusion" = [(".fusion" : Path)] := by decide
    refine locate_eq_ok.2 ⟨rfl, 0, by decide, ?_⟩
    rw [hsteps]
    exact .of_move (admits_root _ _) (.enter (by decide) rfl fun _ he => Entry.noConfusion he)
  have hextension : Path.extension? ".fusion" = none := by decide
  rw [files_of_not_isDirectoryAt hlocate rfl, listedAt, hextension]
  simp

end Disk

/-- No disk here has a link. A directory cannot be listed if a directory in it has too long a path or may not be
read; a file that is listed for itself has no extension if its name begins with the only dot; and a file is listed
though its name begins with a dot, if the name is not text. -/
theorem long_path_stops_listing :
    (∀ d ∈ [Disk.nested, .unreadable, .dotted, .blurred], ∀ l target, d.entry? l ≠ some (.link target)) ∧
      Disk.nested.StandsAt (Path.slashed 4093) ["p"] ∧
      listFiles .nested (Path.slashed 4093) "fusion" =
        .error (.readFailure (Path.join (Path.slashed 4093) "q")
          (.walk (.io (Path.join (Path.slashed 4093) "q") .nameTooLong))) ∧
      Disk.unreadable.StandsAt "p" ["p"] ∧
      listFiles .unreadable "p" "fusion" = .error (.readFailure "p/q" (.walk (.io "p/q" .notPermitted))) ∧
      Disk.dotted.entry? [".fusion"] = some (.file 0o644 []) ∧ listFiles .dotted ".fusion" "fusion" = .ok [] ∧
      Disk.blurredName.head? = some Path.dot ∧
      listFiles .blurred "p" "fusion" = .ok [Path.join "p" Disk.blurredName] := by
  have hlong : Disk.nested.StandsAt (Path.slashed 4093) ["p"] := ⟨Disk.locate_slashed rfl rfl (by decide), rfl⟩
  have hp : Disk.unreadable.StandsAt "p" ["p"] := Disk.standsAt_p rfl rfl (by decide)
  refine ⟨?_, hlong, Disk.listFiles_of_shut hlong (by decide) rfl ?_, hp,
    Disk.listFiles_of_shut hp (by decide) rfl Disk.readDirectory_unreadable, rfl,
    listFiles_eq_ok.2 Disk.files_dotted, rfl, listFiles_eq_ok.2 Disk.files_blurred⟩
  · intro d hd
    refine Disk.entry?_ne_link_of_entries ?_
    simp only [List.mem_cons, List.not_mem_nil, or_false] at hd
    obtain rfl | rfl | rfl | rfl := hd <;>
      simp [Disk.nested, Disk.unreadable, Disk.dotted, Disk.blurred]
  · have hcheck : Disk.checkPath (Path.join (Path.slashed 4093) "q") = .error .nameTooLong :=
      Disk.checkPath_join_slashed (by decide) (by decide) (by decide)
    rw [Disk.readDirectory, Disk.locate, hcheck]
    rfl

theorem single_listed_completely :
    (∀ path : Path, path = "p/a.fusion" ↔ Disk.single.Lists "p" "fusion" path) ∧
      ∀ ns cause, Disk.single.HasBelow ["p"] ns → ¬Disk.single.IsShut "p" ["p"] ns cause := by
  have hnamed : Disk.single.IsNamed := by decide
  have hs : Disk.single.StandsAt "p" ["p"] := Disk.standsAt_p rfl rfl (by decide)
  have hlink (below : Location) (target : Path) : Disk.single.entry? ([("p" : Path)] ++ below) ≠ some (.link target) :=
    Disk.entry?_ne_link_of_entries (by simp [Disk.single]) _ target
  have hfiles : listFiles .single "p" "fusion" = .ok ["p/a.fusion"] := listFiles_eq_ok.2 Disk.files_single
  obtain ⟨hlisting, -, hsucceeds⟩ := listing_complete_and_ordered hnamed "p" "fusion"
  obtain ⟨hmem, -⟩ := hlisting _ hfiles
  exact ⟨fun path => List.mem_singleton.symm.trans (hmem path), (hsucceeds _ hs hlink).1.1 ⟨_, hfiles⟩⟩

end Inlay
