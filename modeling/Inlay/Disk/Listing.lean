import Inlay.Disk.Basic

namespace Inlay

inductive WalkError
  | io (path : Path) (cause : IoError)
  /-- A directory that a link leads to cannot be opened. Its path is not told. -/
  | opening (cause : IoError)
  | loop (path ancestor : Path)
  deriving DecidableEq, Repr

namespace WalkError

def path? : WalkError → Option Path
  | .io path _ | .loop path _ => some path
  | .opening _ => none

def message : WalkError → String
  | .io path cause => "IO error for operation on " ++ Path.display path ++ ": " ++ cause.message
  | .opening cause => cause.message
  | .loop path ancestor =>
    "File system loop found: " ++ Path.display path ++ " points to an ancestor " ++ Path.display ancestor

end WalkError

namespace Disk

/-- A directory that the walk stands in: the path it was reached by and where it is. -/
structure Standing where
  path : Path
  location : Location
  deriving DecidableEq

/-- What an entry met on a walk turns out to be, a link followed. -/
inductive Found
  | file
  | directory (location : Location)
  | other
  deriving DecidableEq

def ancestor? (stack : List Standing) (l : Location) : Option Standing :=
  stack.find? (·.location = l)

/-- Looks at the child `name` of the innermost directory of `stack`, whose own location is `here`. -/
def meet (d : Disk) (stack : List Standing) (here : Location) (path name : Path) :
    Entry → Except WalkError Found
  | .file .. => .ok .file
  | .directory _ => .ok (.directory (here ++ [name]))
  | .device _ => .ok .other
  | .link _ =>
    match d.locate path with
    | .error cause => .error (.io path cause)
    | .ok l =>
      if d.isDirectoryAt l then
        if !d.grantsAt .read l then .error (.opening .notPermitted)
        else
          match ancestor? stack l with
          | some above => .error (.loop path above.path)
          | none => .ok (.directory l)
      else .ok (if (d.entry? l).any Entry.isFile then .file else .other)

def unvisited (d : Disk) (stack : List Standing) : List Location :=
  ([] :: d.entries.keys).filter fun l => d.isDirectoryAt l && (ancestor? stack l).isNone

def depth (d : Disk) : Nat := (d.entries.keys.map (·.length)).foldr max 0

theorem length_le_depth {d : Disk} {l : Location} (h : l ∈ d.entries.keys) : l.length ≤ d.depth := by
  unfold depth
  generalize d.entries.keys = ks at h
  induction ks with
  | nil => cases h
  | cons k ks ih =>
    rcases List.mem_cons.1 h with rfl | h
    · exact Nat.le_max_left _ _
    · exact Nat.le_trans (ih h) (Nat.le_max_right _ _)

theorem length_lt_depth_of_mem_children {d : Disk} {here : Location} {c : Path × Entry}
    (h : c ∈ d.children here) : here.length < d.depth := by
  obtain ⟨⟨key, e⟩, hkey, hc⟩ := List.mem_filterMap.1 h
  have hmem : key ∈ d.entries.keys := List.mem_map.2 ⟨_, hkey, rfl⟩
  dsimp only at hc
  split at hc
  · next name hname =>
    split at hc
    · next hdrop =>
      have hne : key ≠ [] := by rintro rfl; simp at hname
      have := length_le_depth hmem
      have : key.dropLast.length + 1 = key.length := by
        rw [List.length_dropLast, Nat.sub_add_cancel (List.length_pos_iff.2 hne)]
      rw [hdrop] at this
      omega
    · cases hc
  · cases hc

theorem ancestor?_cons_isNone (s : Standing) (stack : List Standing) (l : Location) :
    (ancestor? (s :: stack) l).isNone = (!decide (s.location = l) && (ancestor? stack l).isNone) := by
  unfold ancestor?
  by_cases h : s.location = l <;> simp [h]

theorem unvisited_cons (d : Disk) (s : Standing) (stack : List Standing) :
    d.unvisited (s :: stack) = (d.unvisited stack).filter fun l => !decide (s.location = l) := by
  unfold unvisited
  rw [List.filter_filter]
  congr 1
  funext l
  rw [ancestor?_cons_isNone, Bool.and_left_comm]

theorem length_unvisited_cons_le (d : Disk) (s : Standing) (stack : List Standing) :
    (d.unvisited (s :: stack)).length ≤ (d.unvisited stack).length := by
  rw [unvisited_cons]
  exact List.length_filter_le _ _

theorem mem_keys_of_find {l : Location} {e : Entry} {es : List (Location × Entry)}
    (h : Table.find l es = some e) : l ∈ es.map (·.1) := by
  induction es with
  | nil => cases h
  | cons f rest ih =>
    unfold Table.find at h
    split at h
    · next hf => exact Std.LawfulEqCmp.eq_of_compare hf ▸ List.mem_cons_self
    · exact List.mem_cons_of_mem _ (ih h)

theorem mem_unvisited {d : Disk} {stack : List Standing} {l : Location}
    (hl : d.isDirectoryAt l = true) (hs : ancestor? stack l = none) : l ∈ d.unvisited stack := by
  refine List.mem_filter.2 ⟨?_, by simp [hl, hs]⟩
  by_cases h : l = []
  · exact h ▸ List.mem_cons_self
  · refine List.mem_cons_of_mem _ ?_
    unfold isDirectoryAt entry? at hl
    rw [if_neg h] at hl
    cases he : d.entries.get? l with
    | none => simp [he] at hl
    | some e => exact mem_keys_of_find he

theorem length_unvisited_cons_lt {d : Disk} {stack : List Standing} {l : Location} (path : Path)
    (hl : d.isDirectoryAt l = true) (hs : ancestor? stack l = none) :
    (d.unvisited (⟨path, l⟩ :: stack)).length < (d.unvisited stack).length := by
  rw [unvisited_cons]
  exact List.length_filter_lt_length_iff_exists.2 ⟨l, mem_unvisited hl hs, by simp⟩

/-- Bounds how far a walk can still go: a link leads to a directory not stood in, a name leads one
level down. -/
def room (d : Disk) (stack : List Standing) (here : Location) : Nat :=
  (d.unvisited stack).length * (d.depth + 1) + (d.depth - here.length)

theorem room_lt_of_meet {d : Disk} {stack : List Standing} {here l : Location} {path : Path}
    {c : Path × Entry} (hc : c ∈ d.children here)
    (h : d.meet stack here path c.1 c.2 = .ok (.directory l)) :
    d.room (⟨path, l⟩ :: stack) l < d.room stack here := by
  have hdepth := length_lt_depth_of_mem_children hc
  unfold meet at h
  split at h
  · cases h
  · cases h
    have := Nat.mul_le_mul_right (d.depth + 1)
      (length_unvisited_cons_le d ⟨path, here ++ [c.1]⟩ stack)
    simp only [room, List.length_append, List.length_singleton]
    omega
  · cases h
  · split at h
    · cases h
    · next l' _ =>
      split at h
      · next hl =>
        split at h
        · cases h
        · split at h
          · cases h
          · next hs =>
            cases h
            have := Nat.mul_le_mul_right (d.depth + 1) (length_unvisited_cons_lt path hl hs)
            simp only [room, Nat.succ_mul] at this ⊢
            omega
      · split at h <;> cases h

def readDirectory (d : Disk) (path : Path) : Except WalkError Location :=
  match d.locate path with
  | .error cause => .error (.io path cause)
  | .ok l => if d.grantsAt .read l then .ok l else .error (.io path .notPermitted)

/-- The files with the extension below the innermost directory of `stack`, which is at `here` and
was reached by `path`, in walking order. A hidden entry is left out once it has been looked at. -/
def visit (d : Disk) (extension : String) (stack : List Standing) (path : Path) (here : Location) :
    Except WalkError (List Path) := do
  let _ ← d.readDirectory path
  let found ← (d.children here).attach.mapM fun c =>
    let below := Path.join path c.1.1
    match hm : d.meet stack here below c.1.1 c.1.2 with
    | .error fault => .error fault
    | .ok found =>
      if Path.isHidden c.1.1 then .ok []
      else
        match _hf : found with
        | .file => .ok (if Path.extension? below = some (Text.encode extension) then [below] else [])
        | .other => .ok []
        | .directory l => d.visit extension (⟨below, l⟩ :: stack) below l
  .ok found.flatten
termination_by d.room stack here
decreasing_by exact room_lt_of_meet c.2 (_hf ▸ hm)

def isLink (d : Disk) (path : Path) : Bool :=
  match d.place path with
  | .ok l => (d.entry? l).any Entry.isLink
  | .error _ => false

/-- All files with the extension at or below a directory. Hidden names are skipped, the directory's
own name apart. -/
def files (d : Disk) (directory : Path) (extension : String) : Except WalkError (List Path) :=
  match d.locate directory with
  | .error cause => .error (.io directory cause)
  | .ok l =>
    if d.isDirectoryAt l then
      if d.isLink directory && !d.grantsAt .read l then .error (.opening .notPermitted)
      else d.visit extension [⟨directory, l⟩] directory l
    else .ok (if d.isFile directory && Path.extension? directory = some (Text.encode extension) then [directory] else [])

/-- The names in a directory with their entries, none if it cannot be opened. -/
def childrenOf (d : Disk) (path : Path) (l : Location) : List (Path × Entry) :=
  match d.readDirectory path with
  | .error _ => []
  | .ok _ => d.children l

/-- The directories named `name` one or two levels below `root`, in walking order. Faults on the
way are passed over. -/
def directoriesNamed (d : Disk) (name root : Path) : List Path :=
  match d.locate root with
  | .error _ => []
  | .ok l =>
    let matching (path : Path) (c : Path × Entry) : List Path :=
      if c.1 = name then [path] else []
    (d.childrenOf root l).flatMap fun c =>
      let path := Path.join root c.1
      match d.meet [⟨root, l⟩] l path c.1 c.2 with
      | .ok (.directory l') =>
        matching path c ++
          (d.childrenOf path l').flatMap fun c' =>
            let path' := Path.join path c'.1
            match d.meet [⟨path, l'⟩, ⟨root, l⟩] l' path' c'.1 c'.2 with
            | .ok (.directory _) => matching path' c'
            | _ => []
      | _ => []

end Disk

end Inlay
