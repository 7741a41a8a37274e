import Inlay.Proofs.Complete

namespace Inlay

namespace Disk

variable {d : Disk} {key root path name : Path} {ns ms : List Path} {here l : Location} {above : List Location}
  {stack : List Standing}

/-- The entry of that name, in the directory at `here` with that path, is a directory or a link to one that may be
read, but not a link back to one of the directories `above`. -/
inductive Opens (d : Disk) (above : List Location) (path : Path) (here : Location) (name : Path) : Location → Prop
  | directory {mode : Nat} (he : d.entry? (here ++ [name]) = some (.directory mode)) :
      Opens d above path here name (here ++ [name])
  | link {target : Path} {l : Location} (he : d.entry? (here ++ [name]) = some (.link target))
      (hs : d.StandsAt (Path.join path name) l) (hread : d.grantsAt .read l) (hback : l ∉ above) :
      Opens d above path here name l

/-- The names lead from the root, one or two levels down, to a directory named like the key. -/
inductive HasPackage (d : Disk) (root key : Path) : List Path → Prop
  | direct {here l : Location} (hs : d.StandsAt root here) (h : d.Opens [here] root here key l) :
      HasPackage d root key [key]
  | nested {here mid l : Location} {category : Path} (hs : d.StandsAt root here)
      (hcategory : d.Opens [here] root here category mid)
      (h : d.Opens [mid, here] (Path.join root category) mid key l) : HasPackage d root key [category, key]

/-- The process has the rights to follow the path and to read what it leads to. -/
def MayRead (d : Disk) (path : Path) : Prop :=
  ∃ n l, Leads d n (d.start path) (Path.steps path) l ∧ d.grantsAt .read l

/-- Every directory on the way has a path that the system takes, and may be read. -/
def InReach (d : Disk) (root : Path) (ns : List Path) : Prop :=
  ∀ init, init <+: ns → init ≠ ns →
    (Path.under root init).length ≤ maxPathBytes ∧ d.MayRead (Path.under root init)

def Offers (d : Disk) (root key : Path) (ns : List Path) : Prop := d.HasPackage root key ns ∧ d.InReach root ns

/-- A walk meets the first of two before the other one: a directory before what is in it, names in the order of
their bytes. -/
def Earlier (ns ms : List Path) : Prop := ns < ms

theorem Earlier.asymm (h : Earlier ns ms) : ¬Earlier ms ns := List.lt_asymm h

theorem earlier_of_lt {other : Path} (h : name < other) : Earlier (name :: ns) (other :: ms) :=
  List.cons_lt_cons_iff.2 (.inl h)

theorem earlier_below (name other : Path) : Earlier [name] [name, other] :=
  List.cons_lt_cons_iff.2 (.inr ⟨rfl, List.nil_lt_cons _ _⟩)

/-! ### The directories that a walk enters -/

theorem ancestor?_eq_none : ancestor? stack l = none ↔ l ∉ stack.map (·.location) := by
  simp [ancestor?]

theorem meet_eq_directory_iff {e : Entry} (he : d.entry? (here ++ [name]) = some e) :
    d.meet stack here (Path.join path name) name e = .ok (.directory l) ↔
      d.Opens (stack.map (·.location)) path here name l := by
  constructor
  · intro h
    cases e with
    | file | device => cases h
    | directory mode =>
        cases h
        exact .directory he
    | link target =>
        unfold meet at h
        cases hl : d.locate (Path.join path name) with
        | error cause =>
            rw [hl] at h
            cases h
        | ok l' =>
            rw [hl] at h
            dsimp only at h
            split at h
            · next hdir =>
                split at h
                · cases h
                · next hread =>
                    split at h
                    · cases h
                    · next hnone =>
                        cases h
                        exact .link he ⟨hl, hdir⟩ (by simpa using hread) (ancestor?_eq_none.1 hnone)
            · split at h <;> cases h
  · intro h
    cases h with
    | directory he' =>
        cases he.symm.trans he'
        rfl
    | link he' hs hread hback =>
        cases he.symm.trans he'
        rw [meet, hs.locate]
        dsimp only
        rw [if_pos hs.isDirectoryAt, if_neg (by simp [hread]), ancestor?_eq_none.2 hback]

def directory? : Except WalkError Found → Option Location
  | .ok (.directory l) => some l
  | _ => none

theorem directory?_eq_some {r : Except WalkError Found} : directory? r = some l ↔ r = .ok (.directory l) := by
  unfold directory?
  split <;> simp_all

/-- The directories that a walk enters from the innermost one of the stack, with their names. -/
def entered (d : Disk) (stack : List Standing) (path : Path) (here : Location) : List (Path × Location) :=
  (d.childrenOf path here).filterMap fun c => (directory? (d.meet stack here (Path.join path c.1) c.1 c.2)).map (c.1, ·)

theorem mem_childrenOf {c : Path × Entry} :
    c ∈ d.childrenOf path here ↔ (∃ l, d.readDirectory path = .ok l) ∧ c ∈ d.children here := by
  unfold childrenOf
  cases d.readDirectory path <;> simp

theorem mem_entered : (name, l) ∈ d.entered stack path here ↔
    (∃ l', d.readDirectory path = .ok l') ∧ d.Opens (stack.map (·.location)) path here name l := by
  constructor
  · intro h
    obtain ⟨⟨name', e⟩, hc, hm⟩ := List.mem_filterMap.1 h
    obtain ⟨l', hm, heq⟩ := Option.map_eq_some_iff.1 hm
    cases heq
    obtain ⟨hread, hc⟩ := mem_childrenOf.1 hc
    exact ⟨hread, (meet_eq_directory_iff (mem_children.1 hc)).1 (directory?_eq_some.1 hm)⟩
  · rintro ⟨hread, h⟩
    obtain ⟨e, he⟩ : ∃ e, d.entry? (here ++ [name]) = some e := by
      cases h with
      | directory he | link he => exact ⟨_, he⟩
    have hm := directory?_eq_some.2 ((meet_eq_directory_iff he).2 h)
    exact List.mem_filterMap.2
      ⟨(name, e), mem_childrenOf.2 ⟨hread, mem_children.2 he⟩, Option.map_eq_some_iff.2 ⟨l, hm, rfl⟩⟩

theorem pairwise_childrenOf (d : Disk) (path : Path) (here : Location) :
    (d.childrenOf path here).Pairwise fun c c' => c.1 < c'.1 := by
  unfold childrenOf
  split
  · exact .nil
  · exact d.pairwise_children here

theorem pairwise_entered (d : Disk) (stack : List Standing) (path : Path) (here : Location) :
    (d.entered stack path here).Pairwise fun s s' => s.1 < s'.1 := by
  refine List.pairwise_filterMap.2 ((d.pairwise_childrenOf path here).imp fun {c c'} hlt s hs s' hs' => ?_)
  obtain ⟨l, -, rfl⟩ := Option.map_eq_some_iff.1 hs
  obtain ⟨l', -, rfl⟩ := Option.map_eq_some_iff.1 hs'
  exact hlt

theorem flatMap_entered {β : Type} (f : Path × Location → List β) : (d.entered stack path here).flatMap f =
    (d.childrenOf path here).flatMap fun c =>
      match d.meet stack here (Path.join path c.1) c.1 c.2 with
      | .ok (.directory l) => f (c.1, l)
      | _ => [] := by
  rw [entered, List.filterMap_eq_flatMap_toList, List.flatMap_assoc]
  refine List.flatMap_congr fun c _ => ?_
  split
  · next l hm => simp [directory?, hm]
  · next hnot =>
      have hnone : directory? (d.meet stack here (Path.join path c.1) c.1 c.2) = none :=
        Option.eq_none_iff_forall_ne_some.2 fun l hm => hnot l (directory?_eq_some.1 hm)
      simp [hnone]

/-! ### What a search below a root finds -/

/-- The names of what is found in a directory that was entered from the root. -/
def namesBelow (d : Disk) (key root : Path) (here : Location) (s : Path × Location) : List (List Path) :=
  (d.entered [⟨Path.join root s.1, s.2⟩, ⟨root, here⟩] (Path.join root s.1) s.2).flatMap fun s' =>
    if s'.1 = key then [[s.1, key]] else []

/-- The names of what is found with a directory that was entered from the root. -/
def namesAt (d : Disk) (key root : Path) (here : Location) (s : Path × Location) : List (List Path) :=
  (if s.1 = key then [[key]] else []) ++ d.namesBelow key root here s

theorem directoriesNamed_eq (hs : d.StandsAt root here) : d.directoriesNamed key root =
    ((d.entered [⟨root, here⟩] root here).flatMap (d.namesAt key root here)).map (Path.under root) := by
  have hunder (names : List Path) (name : Path) :
      (if name = key then [Path.under root (names ++ [name])] else []) =
        (if name = key then [names ++ [key]] else []).map (Path.under root) := by
    by_cases hkey : name = key <;> simp [hkey]
  rw [directoriesNamed, hs.locate, List.map_flatMap, flatMap_entered]
  refine List.flatMap_congr fun c _ => ?_
  dsimp only
  cases d.meet [⟨root, here⟩] here (Path.join root c.1) c.1 c.2 with
  | error fault => rfl
  | ok found =>
      cases found with
      | file | other => rfl
      | directory l =>
          dsimp only
          rw [namesAt, List.map_append]
          congr 1
          · exact hunder [] c.1
          · rw [namesBelow, List.map_flatMap, flatMap_entered]
            refine List.flatMap_congr fun c' _ => ?_
            cases d.meet [⟨Path.join root c.1, l⟩, ⟨root, here⟩] l (Path.join (Path.join root c.1) c'.1) c'.1 c'.2 with
            | error fault => rfl
            | ok found =>
                cases found with
                | file | other => rfl
                | directory => exact hunder [c.1] c'.1

theorem mem_namesBelow {s : Path × Location} : ns ∈ d.namesBelow key root here s ↔
    (∃ l, d.readDirectory (Path.join root s.1) = .ok l) ∧
      (∃ l, d.Opens [s.2, here] (Path.join root s.1) s.2 key l) ∧ ns = [s.1, key] := by
  rw [namesBelow, List.mem_flatMap]
  constructor
  · rintro ⟨⟨name, l⟩, hentered, hns⟩
    by_cases hkey : name = key
    · subst hkey
      obtain ⟨hread, hopens⟩ := mem_entered.1 hentered
      exact ⟨hread, ⟨l, hopens⟩, by simpa using hns⟩
    · simp [hkey] at hns
  · rintro ⟨hread, ⟨l, hopens⟩, rfl⟩
    exact ⟨(key, l), mem_entered.2 ⟨hread, hopens⟩, by simp⟩

theorem mem_namesAt {s : Path × Location} : ns ∈ d.namesAt key root here s ↔
    s.1 = key ∧ ns = [key] ∨ ns ∈ d.namesBelow key root here s := by
  rw [namesAt, List.mem_append]
  refine or_congr_left ?_
  by_cases hkey : s.1 = key <;> simp [hkey]

theorem mayRead_of_readDirectory (h : d.readDirectory path = .ok l) : path.length ≤ maxPathBytes ∧ d.MayRead path := by
  obtain ⟨hl, hread⟩ := readDirectory_eq_ok.1 h
  obtain ⟨htext, n, -, hleads⟩ := locate_eq_ok.1 hl
  exact ⟨(checkPath_eq_ok htext).2.2, n, l, hleads, hread⟩

theorem StandsAt.readDirectory_iff (hs : d.StandsAt path here) :
    (∃ l, d.readDirectory path = .ok l) ↔ path.length ≤ maxPathBytes ∧ d.MayRead path := by
  refine ⟨fun ⟨l, hl⟩ => mayRead_of_readDirectory hl, ?_⟩
  rintro ⟨-, m, l, hleads, hread⟩
  obtain ⟨-, n, -, hleads'⟩ := locate_eq_ok.1 hs.locate
  obtain rfl := hleads.unique hleads'
  exact ⟨l, readDirectory_eq_ok.2 ⟨hs.locate, hread⟩⟩

/-- A directory that is entered can be looked into if its path is not too long and there are the rights to. -/
theorem Opens.readDirectory_iff (hnamed : d.IsNamed) (hs : d.StandsAt root here) (h : d.Opens above root here name l) :
    (∃ l', d.readDirectory (Path.join root name) = .ok l') ↔
      (Path.join root name).length ≤ maxPathBytes ∧ d.MayRead (Path.join root name) := by
  cases h with
  | link _ hs' => exact hs'.readDirectory_iff
  | directory he =>
      refine ⟨fun ⟨l', hl'⟩ => mayRead_of_readDirectory hl', ?_⟩
      rintro ⟨hsize, hmay⟩
      have hname := hnamed.of_mem_children (mem_children.2 he)
      obtain ⟨hroot, m, -, hleads⟩ := locate_eq_ok.1 hs.locate
      have htext := (checkPath_join hroot hname.2).2.resolve_right fun h => absurd hsize (Nat.not_le.2 (lt_of_checkPath h))
      have hsearch : d.grantsAt .search here := by
        obtain ⟨n, l, hleads', -⟩ := hmay
        rw [Path.steps_join hs.ne_nil hname.2, start, Path.isAbsolute_join hs.ne_nil hname.2, ← start] at hleads'
        obtain ⟨a, b, mid, -, hmid, hlast⟩ := hleads'.of_append
        obtain rfl := (leads_names hleads).unique hmid
        cases hlast with
        | step hadmits => exact hadmits.2 hname.2.1
      have hl := locate_join hs.locate ⟨hs.isDirectoryAt, hsearch⟩ hname he (by simp) htext
      exact (StandsAt.readDirectory_iff ⟨hl, isDirectoryAt_iff.2 ⟨_, he⟩⟩).2 ⟨hsize, hmay⟩

theorem inReach_direct : d.InReach root [key] ↔ root.length ≤ maxPathBytes ∧ d.MayRead root := by
  constructor
  · intro h
    exact h [] List.nil_prefix (by simp)
  · intro hroot init hinit hne
    obtain rfl | rfl : init = [] ∨ init = [key] := by simpa [List.prefix_cons_iff] using hinit
    · exact hroot
    · exact absurd rfl hne

theorem inReach_nested {category : Path} : d.InReach root [category, key] ↔
    (root.length ≤ maxPathBytes ∧ d.MayRead root) ∧
      (Path.join root category).length ≤ maxPathBytes ∧ d.MayRead (Path.join root category) := by
  constructor
  · intro h
    exact ⟨h [] List.nil_prefix (by simp), h [category] ⟨[key], rfl⟩ (by simp)⟩
  · rintro ⟨hroot, hcategory⟩ init hinit hne
    obtain rfl | ⟨rest, rfl, rfl | rfl⟩ : init = [] ∨ ∃ rest, init = category :: rest ∧ (rest = [] ∨ rest = [key]) := by
      simpa [List.prefix_cons_iff] using hinit
    · exact hroot
    · exact hcategory
    · exact absurd rfl hne

theorem StandsAt.unique {here' : Location} (h : d.StandsAt path here) (h' : d.StandsAt path here') : here = here' :=
  Except.ok.inj (h.locate.symm.trans h'.locate)

theorem mem_names_iff (hnamed : d.IsNamed) (hs : d.StandsAt root here) :
    ns ∈ (d.entered [⟨root, here⟩] root here).flatMap (d.namesAt key root here) ↔ d.Offers root key ns := by
  rw [List.mem_flatMap]
  constructor
  · rintro ⟨⟨category, mid⟩, hentered, hns⟩
    obtain ⟨hread, hcategory⟩ := mem_entered.1 hentered
    have hroot := hs.readDirectory_iff.1 hread
    obtain ⟨rfl, rfl⟩ | hns := mem_namesAt.1 hns
    · exact ⟨.direct hs hcategory, inReach_direct.2 hroot⟩
    · obtain ⟨hread, ⟨l, hopens⟩, rfl⟩ := mem_namesBelow.1 hns
      exact ⟨.nested hs hcategory hopens, inReach_nested.2 ⟨hroot, (hcategory.readDirectory_iff hnamed hs).1 hread⟩⟩
  · rintro ⟨h, hreach⟩
    cases h with
    | direct hs' h =>
        obtain rfl := hs.unique hs'
        exact ⟨_, mem_entered.2 ⟨hs.readDirectory_iff.2 (inReach_direct.1 hreach), h⟩, mem_namesAt.2 (.inl ⟨rfl, rfl⟩)⟩
    | nested hs' hcategory h =>
        obtain rfl := hs.unique hs'
        obtain ⟨hroot, hmid⟩ := inReach_nested.1 hreach
        have hread := (hcategory.readDirectory_iff hnamed hs).2 hmid
        exact ⟨_, mem_entered.2 ⟨hs.readDirectory_iff.2 hroot, hcategory⟩,
          mem_namesAt.2 (.inr (mem_namesBelow.2 ⟨hread, ⟨_, h⟩, rfl⟩))⟩

theorem head?_of_mem_namesAt {s : Path × Location} (h : ns ∈ d.namesAt key root here s) : ns.head? = some s.1 := by
  obtain ⟨rfl, rfl⟩ | h := mem_namesAt.1 h
  · rfl
  · obtain ⟨-, -, rfl⟩ := mem_namesBelow.1 h
    rfl

theorem pairwise_namesBelow (d : Disk) (key root : Path) (here : Location) (s : Path × Location) :
    (d.namesBelow key root here s).Pairwise Earlier := by
  refine List.pairwise_flatMap.2 ⟨fun s' _ => ?_, (d.pairwise_entered _ _ _).imp fun hlt ns hns ms hms => ?_⟩
  · split <;> simp
  · split at hns
    · next hkey =>
        split at hms
        · next hkey' =>
            rw [hkey, hkey'] at hlt
            exact absurd hlt (List.lt_irrefl key)
        · cases hms
    · cases hns

theorem pairwise_namesAt (d : Disk) (key root : Path) (here : Location) (s : Path × Location) :
    (d.namesAt key root here s).Pairwise Earlier := by
  rw [namesAt]
  refine List.pairwise_append.2 ⟨?_, d.pairwise_namesBelow key root here s, fun ns hns ms hms => ?_⟩
  · split <;> simp
  · obtain ⟨-, -, rfl⟩ := mem_namesBelow.1 hms
    split at hns
    · next hkey =>
        rw [List.mem_singleton.1 hns, hkey]
        exact earlier_below key key
    · cases hns

theorem pairwise_names (d : Disk) (key root : Path) (here : Location) :
    ((d.entered [⟨root, here⟩] root here).flatMap (d.namesAt key root here)).Pairwise Earlier := by
  refine List.pairwise_flatMap.2 ⟨fun s _ => d.pairwise_namesAt key root here s, ?_⟩
  refine (d.pairwise_entered _ _ _).imp fun hlt ns hns ms hms => ?_
  obtain ⟨ns, rfl⟩ := List.head?_eq_some_iff.1 (head?_of_mem_namesAt hns)
  obtain ⟨ms, rfl⟩ := List.head?_eq_some_iff.1 (head?_of_mem_namesAt hms)
  exact earlier_of_lt hlt

theorem head?_eq_some_of_pairwise {nss : List (List Path)} (h : nss.Pairwise Earlier) :
    nss.head? = some ns ↔ ns ∈ nss ∧ ∀ ms ∈ nss, ms = ns ∨ Earlier ns ms := by
  cases nss with
  | nil => simp
  | cons first rest =>
      obtain ⟨hfirst, -⟩ := List.pairwise_cons.1 h
      constructor
      · intro hns
        cases hns
        exact ⟨List.mem_cons_self, fun ms hms => (List.mem_cons.1 hms).imp_right (hfirst ms)⟩
      · rintro ⟨hns, hleast⟩
        obtain rfl | hns := List.mem_cons.1 hns
        · rfl
        · obtain rfl | hearlier := hleast first List.mem_cons_self
          · rfl
          · exact absurd (hfirst ns hns) hearlier.asymm

theorem head?_directoriesNamed (hnamed : d.IsNamed) (hdir : d.isDirectory root) :
    (d.directoriesNamed key root).head? = some path ↔
      ∃ ns, (d.Offers root key ns ∧ ∀ ms, d.Offers root key ms → ms = ns ∨ Earlier ns ms) ∧ path = Path.under root ns := by
  obtain ⟨here, hs⟩ := isDirectory_iff.1 hdir
  rw [directoriesNamed_eq hs, List.head?_map, Option.map_eq_some_iff]
  refine exists_congr fun ns => and_congr ?_ eq_comm
  simp only [head?_eq_some_of_pairwise (d.pairwise_names key root here), mem_names_iff hnamed hs]

theorem directoriesNamed_eq_nil (hnamed : d.IsNamed) (hdir : d.isDirectory root) :
    d.directoriesNamed key root = [] ↔ ∀ ns, ¬d.Offers root key ns := by
  obtain ⟨here, hs⟩ := isDirectory_iff.1 hdir
  rw [directoriesNamed_eq hs, List.map_eq_nil_iff, List.eq_nil_iff_forall_not_mem]
  simp only [mem_names_iff hnamed hs]

end Disk

namespace Packages

variable {p : Packages} {d : Disk} {key : String} {path : Path}

def IsConfigured (p : Packages) (d : Disk) (key : String) (path : Path) : Prop :=
  p.paths.get? key = some path ∧ d.isDirectory path

/-- The first that is offered: nothing is below the roots before its own, and nothing is earlier below that. -/
def IsFirst (p : Packages) (d : Disk) (key path : Path) : Prop :=
  ∃ before root after ns, p.roots = before ++ root :: after ∧ (∀ r ∈ before, ∀ ms, ¬d.Offers r key ms) ∧
    (d.Offers root key ns ∧ ∀ ms, d.Offers root key ms → ms = ns ∨ Disk.Earlier ns ms) ∧ path = Path.under root ns

theorem configured?_eq_some : p.configured? d key = some path ↔ p.IsConfigured d key path := by
  rw [configured?, Option.filter_eq_some_iff]
  rfl

theorem isDirectory_of_offers {root key : Path} {ns : List Path} (h : d.Offers root key ns) : d.isDirectory root := by
  obtain ⟨h, -⟩ := h
  cases h with
  | direct hs | nested hs => exact Disk.isDirectory_iff.2 ⟨_, hs⟩

/-- What the search finds below one of the roots; a root that is no directory is skipped. -/
def below? (d : Disk) (key root : Path) : Option Path :=
  if d.isDirectory root then (d.directoriesNamed key root).head? else none

theorem search?_eq (p : Packages) (d : Disk) (key : String) :
    p.search? d key = p.roots.findSome? (below? d key) := by
  rw [search?, List.head?_flatMap]
  induction p.roots with
  | nil => rfl
  | cons root roots ih =>
      by_cases hdir : d.isDirectory root <;> simp [below?, hdir, ih, List.findSome?_cons]

theorem below?_eq_some (hnamed : d.IsNamed) {key root : Path} : below? d key root = some path ↔
    ∃ ns, (d.Offers root key ns ∧ ∀ ms, d.Offers root key ms → ms = ns ∨ Disk.Earlier ns ms) ∧ path = Path.under root ns := by
  unfold below?
  split
  · next hdir => exact Disk.head?_directoriesNamed hnamed hdir
  · next hdir =>
      refine ⟨nofun, ?_⟩
      rintro ⟨ns, ⟨hoffers, -⟩, -⟩
      exact absurd (isDirectory_of_offers hoffers) hdir

theorem below?_eq_none (hnamed : d.IsNamed) {key root : Path} : below? d key root = none ↔ ∀ ns, ¬d.Offers root key ns := by
  unfold below?
  split
  · next hdir => rw [List.head?_eq_none_iff, Disk.directoriesNamed_eq_nil hnamed hdir]
  · next hdir => exact ⟨fun _ ns hoffers => hdir (isDirectory_of_offers hoffers), fun _ => rfl⟩

theorem search?_eq_some (hnamed : d.IsNamed) : p.search? d key = some path ↔ p.IsFirst d key path := by
  rw [search?_eq, List.findSome?_eq_some_iff]
  constructor
  · rintro ⟨before, root, after, hroots, hfound, hbefore⟩
    obtain ⟨ns, hfirst, rfl⟩ := (below?_eq_some hnamed).1 hfound
    exact ⟨before, root, after, ns, hroots, fun r hr => (below?_eq_none hnamed).1 (hbefore r hr), hfirst, rfl⟩
  · rintro ⟨before, root, after, ns, hroots, hbefore, hfirst, rfl⟩
    exact ⟨before, root, after, hroots, (below?_eq_some hnamed).2 ⟨ns, hfirst, rfl⟩,
      fun r hr => (below?_eq_none hnamed).2 (hbefore r hr)⟩

theorem search?_eq_none (hnamed : d.IsNamed) :
    p.search? d key = none ↔ ∀ root ∈ p.roots, ∀ ns, ¬d.Offers root key ns := by
  rw [search?_eq, List.findSome?_eq_none_iff]
  exact forall₂_congr fun root _ => below?_eq_none hnamed

theorem path?_of_isConfigured (h : p.IsConfigured d key path) : p.path? d key = some path := by
  rw [path?, configured?_eq_some.2 h]

theorem path?_of_not_isConfigured (h : ∀ path, ¬p.IsConfigured d key path) : p.path? d key = p.search? d key := by
  have hnone : p.configured? d key = none :=
    Option.eq_none_iff_forall_ne_some.2 fun path hpath => h path (configured?_eq_some.1 hpath)
  rw [path?, hnone]

theorem path?_eq_some (hnamed : d.IsNamed) : p.path? d key = some path ↔
    p.IsConfigured d key path ∨ (∀ other, ¬p.IsConfigured d key other) ∧ p.IsFirst d key path := by
  by_cases h : ∃ configured, p.IsConfigured d key configured
  · obtain ⟨configured, h⟩ := h
    rw [path?_of_isConfigured h]
    constructor
    · intro heq
      cases heq
      exact .inl h
    · rintro (⟨hpath, -⟩ | ⟨hnone, -⟩)
      · exact h.1.symm.trans hpath
      · exact absurd h (hnone configured)
  · rw [not_exists] at h
    rw [path?_of_not_isConfigured h, search?_eq_some hnamed]
    exact ⟨fun hfirst => .inr ⟨h, hfirst⟩, fun hor => (hor.resolve_left (h path)).2⟩

theorem path?_eq_none (hnamed : d.IsNamed) : p.path? d key = none ↔
    (∀ path, ¬p.IsConfigured d key path) ∧ ∀ root ∈ p.roots, ∀ ns, ¬d.Offers root key ns := by
  constructor
  · intro hnone
    have h : ∀ path, ¬p.IsConfigured d key path := by
      intro path h
      rw [path?_of_isConfigured h] at hnone
      cases hnone
    rw [path?_of_not_isConfigured h, search?_eq_none hnamed] at hnone
    exact ⟨h, hnone⟩
  · rintro ⟨h, hnone⟩
    rw [path?_of_not_isConfigured h]
    exact (search?_eq_none hnamed).2 hnone

theorem fusionDirectory_eq_ok {directory : Path} : p.fusionDirectory d key = .ok directory ↔
    ∃ path, p.path? d key = some path ∧ directory = Path.join path p.fusionPath ∧ d.isDirectory directory := by
  unfold fusionDirectory
  constructor
  · intro h
    split at h
    · cases h
    · next path hpath =>
        dsimp only at h
        split at h
        · next hdir =>
            cases h
            exact ⟨path, hpath, rfl, hdir⟩
        · cases h
  · rintro ⟨path, hpath, rfl, hdir⟩
    rw [hpath]
    exact if_pos hdir

theorem fusionDirectory_eq_error {e : Error} : p.fusionDirectory d key = .error e ↔
    p.path? d key = none ∧ e = .packageNotFound key ∨
      ∃ path, p.path? d key = some path ∧ ¬d.isDirectory (Path.join path p.fusionPath) ∧
        e = .fusionDirectoryMissing (Path.join path p.fusionPath) := by
  unfold fusionDirectory
  constructor
  · intro h
    split at h
    · next hpath =>
        cases h
        exact .inl ⟨hpath, rfl⟩
    · next path hpath =>
        dsimp only at h
        split at h
        · cases h
        · next hdir =>
            cases h
            exact .inr ⟨path, hpath, hdir, rfl⟩
  · rintro (⟨hpath, rfl⟩ | ⟨path, hpath, hdir, rfl⟩)
    · rw [hpath]
    · rw [hpath]
      exact if_neg hdir

end Packages

/-- A lookup gives the configured directory, or else the first candidate that is offered below the roots, and
misses none. The directory of the sources is asked for below what was found and nowhere else. -/
theorem first_candidate_found {d : Disk} (hnamed : d.IsNamed) (p : Packages) (key : String) :
    (∀ path, p.path? d key = some path ↔
      p.IsConfigured d key path ∨ (∀ other, ¬p.IsConfigured d key other) ∧ p.IsFirst d key path) ∧
    (p.path? d key = none ↔
      (∀ path, ¬p.IsConfigured d key path) ∧ ∀ root ∈ p.roots, ∀ ns, ¬d.Offers root key ns) ∧
    (∀ directory, p.fusionDirectory d key = .ok directory ↔
      ∃ path, p.path? d key = some path ∧ directory = Path.join path p.fusionPath ∧ d.isDirectory directory) ∧
    ∀ e, p.fusionDirectory d key = .error e ↔
      p.path? d key = none ∧ e = .packageNotFound key ∨
        ∃ path, p.path? d key = some path ∧ ¬d.isDirectory (Path.join path p.fusionPath) ∧
          e = .fusionDirectoryMissing (Path.join path p.fusionPath) := by
  exact ⟨fun path => Packages.path?_eq_some hnamed, Packages.path?_eq_none hnamed,
    fun directory => Packages.fusionDirectory_eq_ok, fun e => Packages.fusionDirectory_eq_error⟩

namespace Disk

/-- A directory `p` with a category `q` and a package `r` in it. -/
def shelf : Disk :=
  { entries := ⟨[(["p"], .directory 0o755), (["p", "q"], .directory 0o755), (["p", "q", "r"], .directory 0o755)],
      by decide⟩
    workingDirectory := [] }

theorem hasPackage_shelf {path : Path} {ns : List Path} (hs : shelf.StandsAt path ["p"]) :
    shelf.HasPackage path "r" ns ↔ ns = (["q", "r"] : List Path) := by
  constructor
  · intro h
    cases h with
    | direct hs' h =>
        obtain rfl := hs.unique hs'
        cases h with
        | directory he | link he => cases he
    | nested hs' hcategory h =>
        obtain rfl := hs.unique hs'
        have hq {name : Path} {e : Entry} (he : shelf.entry? ([("p" : Path)] ++ [name]) = some e) : name = "q" := by
          have hchildren : shelf.children ["p"] = ([("q", .directory 0o755)] : List (Path × Entry)) := rfl
          have hmem := mem_children.2 he
          rw [hchildren] at hmem
          exact (Prod.mk.inj (List.mem_singleton.1 hmem)).1
        cases hcategory with
        | directory he | link he => rw [hq he]
  · rintro rfl
    exact .nested hs (.directory rfl) (.directory rfl)

theorem standsAt_shelf : shelf.StandsAt "p" ["p"] := standsAt_p rfl rfl (by decide)

theorem leads_shelf {n : Nat} {here : Location} {name : Path} (hadmits : shelf.Admits here name) (hname : IsName name)
    (he : shelf.entry? (here ++ [name]) = some (.directory 0o755)) {rest : List Path} {l : Location}
    (h : Leads shelf n (here ++ [name]) rest l) : Leads shelf (0 + n) here (name :: rest) l :=
  (Leads.of_move hadmits (.enter hname he (by simp))).append h

theorem mayRead_shelf : shelf.MayRead "p/q" := by
  have hsteps : Path.steps "p/q" = [("p" : Path), "q"] := by decide
  refine ⟨0, ["p", "q"], ?_, by decide⟩
  rw [hsteps]
  exact leads_shelf (admits_root _ _) (by decide) rfl (leads_shelf (by decide) (by decide) rfl (.here _))

theorem offers_shelf : shelf.Offers "p" "r" ["q", "r"] := by
  refine ⟨(hasPackage_shelf standsAt_shelf).2 rfl, inReach_nested.2 ⟨?_, by decide, mayRead_shelf⟩⟩
  exact standsAt_shelf.readDirectory_iff.1 ⟨["p"], readDirectory_p rfl rfl (by decide)⟩

theorem isDirectory_shelf : shelf.isDirectory "p/q/r/" := by
  have hsteps : Path.steps "p/q/r/" = [("p" : Path), "q", "r", []] := by decide
  refine isDirectory_iff.2 ⟨["p", "q", "r"], locate_eq_ok.2 ⟨rfl, 0, by decide, ?_⟩, rfl⟩
  rw [hsteps]
  exact leads_shelf (admits_root _ _) (by decide) rfl <| leads_shelf (by decide) (by decide) rfl <|
    leads_shelf (by decide) (by decide) rfl (.of_move (by decide) (.stay (.inr rfl)))

end Disk

/-- The package is there two levels below the root, and the root is short enough, but the category between them
is not: the lookup cannot look into it. -/
theorem long_path_hides_package :
    Disk.shelf.IsNamed ∧ Disk.shelf.isDirectory (Path.slashed 4093) ∧
      Disk.shelf.HasPackage (Path.slashed 4093) "r" ["q", "r"] ∧
      (⟨.empty, [Path.slashed 4093], []⟩ : Packages).path? .shelf "r" = none := by
  have hnamed : Disk.shelf.IsNamed := by decide
  have hs : Disk.shelf.StandsAt (Path.slashed 4093) ["p"] := ⟨Disk.locate_slashed rfl rfl (by decide), rfl⟩
  refine ⟨hnamed, Disk.isDirectory_iff.2 ⟨_, hs⟩, (Disk.hasPackage_shelf hs).2 rfl, ?_⟩
  refine (Packages.path?_eq_none hnamed).2 ⟨?_, ?_⟩
  · rintro path ⟨hpath, -⟩
    cases hpath
  · intro root hroot ns hoffers
    obtain rfl := List.mem_singleton.1 hroot
    obtain rfl := (Disk.hasPackage_shelf hs).1 hoffers.1
    obtain ⟨-, hsize, -⟩ := Disk.inReach_nested.1 hoffers.2
    rw [Path.join_slashed (by decide), List.length_append, Path.length_slashed] at hsize
    revert hsize
    decide

theorem shelf_searched :
    Disk.shelf.IsNamed ∧ (⟨.empty, ["p"], []⟩ : Packages).path? .shelf "r" = some "p/q/r" ∧
      (⟨.empty, ["p"], []⟩ : Packages).fusionDirectory .shelf "r" = .ok "p/q/r/" := by
  have hnamed : Disk.shelf.IsNamed := by decide
  obtain ⟨hfound, -, hdirectory, -⟩ := first_candidate_found hnamed ⟨.empty, ["p"], []⟩ "r"
  have hpath : (⟨.empty, ["p"], []⟩ : Packages).path? .shelf "r" = some "p/q/r" := by
    refine (hfound _).2 (.inr ⟨?_, [], "p", [], ["q", "r"], rfl, nofun, ⟨Disk.offers_shelf, fun ms hms => ?_⟩, ?_⟩)
    · rintro path ⟨hpath, -⟩
      cases hpath
    · exact .inl ((Disk.hasPackage_shelf Disk.standsAt_shelf).1 hms.1)
    · decide
  exact ⟨hnamed, hpath, (hdirectory _).2 ⟨_, hpath, by decide, Disk.isDirectory_shelf⟩⟩

end Inlay
