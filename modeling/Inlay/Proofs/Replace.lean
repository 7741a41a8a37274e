import Inlay.Disk.Listing
import Inlay.Proofs.Follow

namespace Inlay.Disk

/-- What a replacement comes to. The name itself is taken over: a link in last place gives way to a file, the file it
led to keeps its content. -/
def replace (d : Disk) (path : Path) (content : Bytes) : Except IoError Disk := do
  let mode ← d.mode path
  let l ← d.place path
  if d.isDirectoryAt l then .error .isDirectory else .ok (d.put l (.file mode content))

/-- What makes a disk a tree: every entry lies in a directory, and the working directory is one. -/
structure IsTree (d : Disk) : Prop where
  parent : ∀ l e, d.entry? l = some e → d.isDirectoryAt l.dropLast
  working : d.isDirectoryAt d.workingDirectory

theorem isTree_of_keys {d : Disk} (hparent : ∀ l ∈ d.entries.keys, d.isDirectoryAt l.dropLast = true)
    (hworking : d.isDirectoryAt d.workingDirectory = true) : d.IsTree := by
  refine ⟨fun l e he => ?_, hworking⟩
  by_cases hl : l = []
  · subst hl
    rfl
  · unfold entry? at he
    rw [if_neg hl] at he
    exact hparent l (mem_keys_of_find he)

def IsFileAt (d : Disk) (l : Location) : Prop := ∃ m content, d.entry? l = some (.file m content)

theorem IsFileAt.not_isDirectoryAt {d : Disk} {l : Location} (h : d.IsFileAt l) : d.isDirectoryAt l = false := by
  obtain ⟨m, content, h⟩ := h
  rw [isDirectoryAt, h]
  rfl

theorem IsTree.isDirectoryAt_dropLast {d : Disk} (hd : d.IsTree) {l : Location} (h : d.isDirectoryAt l) :
    d.isDirectoryAt l.dropLast := by
  cases he : d.entry? l with
  | none =>
      rw [isDirectoryAt, he] at h
      cases h
  | some e => exact hd.parent l e he

theorem IsTree.isDirectoryAt_start {d : Disk} (hd : d.IsTree) (path : Path) : d.isDirectoryAt (d.start path) := by
  unfold start
  split
  · rfl
  · exact hd.working

theorem entry?_put_self {d : Disk} {l : Location} (hl : l ≠ []) (e : Entry) : entry? (d.put l e) l = some e := by
  unfold entry? put
  rw [if_neg hl, Table.get?_insert_self]

theorem entry?_put_of_ne {d : Disk} {l l' : Location} (e : Entry) (h : l' ≠ l) :
    entry? (d.put l e) l' = d.entry? l' := by
  unfold entry? put
  rw [Table.get?_insert_of_ne d.entries e h]

theorem isDirectoryAt_put_of_ne {d : Disk} {l l' : Location} (e : Entry) (h : l' ≠ l) :
    (d.put l e).isDirectoryAt l' = d.isDirectoryAt l' := by
  rw [isDirectoryAt, entry?_put_of_ne e h, isDirectoryAt]

theorem grantsAt_put_of_ne {d : Disk} {l l' : Location} (r : Right) (e : Entry) (h : l' ≠ l) :
    (d.put l e).grantsAt r l' = d.grantsAt r l' := by
  rw [grantsAt, entry?_put_of_ne e h, grantsAt]
  rfl

theorem Admits.put_of_ne {d : Disk} {l l' : Location} {step : Path} (h : d.Admits l' step) (e : Entry) (hne : l' ≠ l) :
    (d.put l e).Admits l' step := by
  rwa [Admits, isDirectoryAt_put_of_ne e hne, grantsAt_put_of_ne _ e hne]

/-- The name in the directory leads to the file at `target`; it is that file or a link to it. -/
structure NamesFile (d : Disk) (dir : Location) (name : Path) (target : Location) : Prop where
  isName : IsName name
  leads : ∃ n, Leads d n dir [name] target
  isFileAt : d.IsFileAt target

namespace NamesFile

variable {d : Disk} {dir target : Location} {name : Path}

theorem not_isDirectoryAt (h : d.NamesFile dir name target) : d.isDirectoryAt (dir ++ [name]) = false := by
  obtain ⟨hname, ⟨n, hleads⟩, hfile⟩ := h
  cases hleads with
  | step _ hmove hrest =>
      cases hmove with
      | stay hstep => exact absurd hstep hname.not_stays
      | up => exact absurd rfl hname.2.1
      | enter =>
          cases hrest
          exact hfile.not_isDirectoryAt
      | through _ he =>
          rw [isDirectoryAt, he]
          rfl

theorem ne_of_isDirectoryAt (h : d.NamesFile dir name target) {l : Location} (hl : d.isDirectoryAt l) :
    l ≠ dir ++ [name] := by
  rintro rfl
  rw [h.not_isDirectoryAt] at hl
  cases hl

/-- If something else than a link lies elsewhere, it does not lie under that name either. -/
theorem ne_of_entry (h : d.NamesFile dir name target) {l : Location} {e : Entry} (he : d.entry? l = some e)
    (hlink : ∀ t, e ≠ .link t) (hne : l ≠ target) : l ≠ dir ++ [name] := by
  rintro rfl
  obtain ⟨hname, ⟨n, hleads⟩, -⟩ := h
  cases hleads with
  | step _ hmove hrest =>
      cases hmove with
      | stay hstep => exact absurd hstep hname.not_stays
      | up => exact hname.2.1 rfl
      | enter =>
          cases hrest
          exact hne rfl
      | through _ he' =>
          rw [he] at he'
          cases he'
          exact hlink _ rfl

theorem admits_dir (h : d.NamesFile dir name target) : d.Admits dir name := by
  obtain ⟨-, ⟨n, hleads⟩, -⟩ := h
  cases hleads with
  | step hdir => exact hdir

theorem isDirectoryAt_dir (h : d.NamesFile dir name target) : d.isDirectoryAt dir := h.admits_dir.1

theorem grantsAt_dir (h : d.NamesFile dir name target) : d.grantsAt .search dir := h.admits_dir.2 h.isName.2.2.2

variable {mode : Nat} {content : Bytes}

theorem isDirectoryAt_put (h : d.NamesFile dir name target) {l : Location} (hl : d.isDirectoryAt l) :
    (d.put (dir ++ [name]) (.file mode content)).isDirectoryAt l := by
  rwa [isDirectoryAt_put_of_ne _ (h.ne_of_isDirectoryAt hl)]

theorem admits_put (h : d.NamesFile dir name target) {l : Location} {step : Path} (hl : d.Admits l step) :
    (d.put (dir ++ [name]) (.file mode content)).Admits l step :=
  hl.put_of_ne _ (h.ne_of_isDirectoryAt hl.1)

theorem leads_put_self (h : d.NamesFile dir name target) :
    Leads (d.put (dir ++ [name]) (.file mode content)) 0 dir [name] (dir ++ [name]) :=
  .of_move (h.admits_put h.admits_dir) (.enter h.isName (entry?_put_self (by simp) _) nofun)

theorem move_put (h : d.NamesFile dir name target) {here mid : Location} {step : Path} {k : Nat}
    {more : List Path} (hdir : d.Admits here step) (hmove : Move d here step k mid more) :
    Move (d.put (dir ++ [name]) (.file mode content)) here step k mid more ∨
      here = dir ∧ step = name ∧ ∃ n, Leads d n mid more target := by
  cases hmove with
  | stay hstep => exact .inl (.stay hstep)
  | up => exact .inl .up
  | enter hstep he hlink =>
      by_cases hsame : here ++ [step] = dir ++ [name]
      · refine .inl (.enter hstep (e := .file mode content) ?_ nofun)
        rw [hsame]
        exact entry?_put_self (by simp) _
      · exact .inl (.enter hstep ((entry?_put_of_ne _ hsame).trans he) hlink)
  | through hstep he htarget =>
      by_cases hsame : here ++ [step] = dir ++ [name]
      · obtain ⟨rfl, hstep'⟩ := List.append_inj' hsame rfl
        obtain rfl := List.head_eq_of_cons_eq hstep'
        obtain ⟨n, hleads⟩ := h.leads
        cases hleads with
        | step _ hmove' hrest =>
            cases hmove' with
            | stay hstays => exact absurd hstays hstep.not_stays
            | up => exact absurd rfl hstep.2.1
            | enter _ he' hlink => exact absurd (Option.some.inj (he'.symm.trans he)) (hlink _)
            | through _ he' =>
                cases he.symm.trans he'
                rw [List.append_nil] at hrest
                exact .inr ⟨rfl, rfl, _, hrest⟩
      · exact .inl (.through hstep ((entry?_put_of_ne _ hsame).trans he) htarget)

/-- What the link led to is a file, so a path that leads somewhere through it ended there. -/
theorem ends_of_leads (h : d.NamesFile dir name target) {mid l : Location} {more rest : List Path} {n m : Nat}
    (hmore : Leads d m mid more target) (hl : Leads d n mid (more ++ rest) l) : l = target ∧ rest = [] := by
  obtain ⟨a, b, mid', -, hfirst, hrest⟩ := hl.of_append
  obtain rfl := hfirst.unique hmore
  obtain ⟨rfl, rfl⟩ := hrest.eq_of_not_isDirectoryAt h.isFileAt.not_isDirectoryAt
  exact ⟨rfl, rfl⟩

/-- Once a file has taken the name over, a path leads where it led before, unless it led to the
file behind the name; then it may end at the name. -/
theorem leads_put (h : d.NamesFile dir name target) (mode : Nat) (content : Bytes) {n : Nat}
    {here l : Location} {steps : List Path} (hl : Leads d n here steps l) :
    (∃ k, k ≤ n ∧ Leads (d.put (dir ++ [name]) (.file mode content)) k here steps l) ∨
      l = target ∧
        ∃ k, k ≤ n ∧ Leads (d.put (dir ++ [name]) (.file mode content)) k here steps (dir ++ [name]) := by
  induction hl with
  | here l => exact .inl ⟨0, Nat.le_refl 0, .here l⟩
  | @step k n here mid l step more rest hdir hmove hl ih =>
      have hdir' : (d.put (dir ++ [name]) (.file mode content)).Admits here step := h.admits_put hdir
      obtain hmove' | ⟨rfl, rfl, m, hmore⟩ := h.move_put hdir hmove
      · obtain ⟨m, hm, hl'⟩ | ⟨heq, m, hm, hl'⟩ := ih
        · exact .inl ⟨k + m, Nat.add_le_add_left hm k, .step hdir' hmove' hl'⟩
        · exact .inr ⟨heq, k + m, Nat.add_le_add_left hm k, .step hdir' hmove' hl'⟩
      · obtain ⟨rfl, rfl⟩ := h.ends_of_leads hmore hl
        exact .inr ⟨rfl, 0, Nat.zero_le _, h.leads_put_self⟩

theorem leads_put_of_ne (h : d.NamesFile dir name target) (mode : Nat) (content : Bytes) {n : Nat}
    {here l : Location} {steps : List Path} (hl : Leads d n here steps l) (hne : l ≠ target) :
    ∃ k, k ≤ n ∧ Leads (d.put (dir ++ [name]) (.file mode content)) k here steps l := by
  obtain hk | ⟨heq, -⟩ := h.leads_put mode content hl
  · exact hk
  · exact absurd heq hne

theorem isTree_put (h : d.NamesFile dir name target) (hd : d.IsTree) :
    (d.put (dir ++ [name]) (.file mode content)).IsTree := by
  refine ⟨fun l e he => h.isDirectoryAt_put ?_, h.isDirectoryAt_put hd.working⟩
  by_cases hl : l = dir ++ [name]
  · subst hl
    rw [List.dropLast_concat]
    exact h.isDirectoryAt_dir
  · rw [entry?_put_of_ne _ hl] at he
    exact hd.parent l e he

end NamesFile

variable {d : Disk} {path : Path}

theorem locate_eq_ok {l : Location} : d.locate path = .ok l ↔
    checkPath path = .ok () ∧ ∃ n, n ≤ maxLinks ∧ Leads d n (d.start path) (Path.steps path) l := by
  unfold locate
  cases checkPath path with
  | error e => exact ⟨nofun, nofun⟩
  | ok =>
      constructor
      · intro h
        exact ⟨rfl, Leads.of_follow h⟩
      · rintro ⟨-, n, hn, h⟩
        exact h.follow_eq hn

theorem stat_of_locate {l : Location} (h : d.locate path = .ok l) :
    d.stat path = match d.entry? l with
      | some e => .ok e
      | none => .error .noEntry := by
  rw [stat, h]
  rfl

theorem isDirectory_of_locate {l : Location} (hl : d.locate path = .ok l) : d.isDirectory path = d.isDirectoryAt l := by
  rw [isDirectory, stat_of_locate hl, isDirectoryAt]
  cases d.entry? l <;> rfl

theorem isFile_iff : d.isFile path = true ↔ ∃ l, d.locate path = .ok l ∧ d.IsFileAt l := by
  cases hl : d.locate path with
  | error e =>
      have hstat : d.stat path = .error e := by
        rw [stat, hl]
        rfl
      rw [isFile, hstat]
      exact ⟨nofun, nofun⟩
  | ok l =>
      rw [isFile, stat_of_locate hl]
      constructor
      · intro h
        refine ⟨l, rfl, ?_⟩
        cases he : d.entry? l with
        | none =>
            rw [he] at h
            cases h
        | some e =>
            rw [he] at h
            cases e with
            | file m content => exact ⟨m, content, he⟩
            | directory | link | device => cases h
      · rintro ⟨l', hl', m, content, he⟩
        cases hl'
        rw [he]
        rfl

theorem namesFile_of_leads (hd : d.IsTree) {n : Nat} {dir target : Location} {name : Path}
    (h : Leads d n dir [name] target) (hfile : d.IsFileAt target) : d.NamesFile dir name target := by
  refine ⟨?_, ⟨n, h⟩, hfile⟩
  cases h with
  | step hdir hmove hrest =>
      cases hmove with
      | stay =>
          cases hrest
          exact absurd hdir.1 (by rw [hfile.not_isDirectoryAt]; decide)
      | up =>
          cases hrest
          have := hd.isDirectoryAt_dropLast hdir.1
          rw [hfile.not_isDirectoryAt] at this
          cases this
      | enter hstep => exact hstep
      | through hstep => exact hstep

/-- A path to a file of a tree: its last name names the file in the directory that the names before
it lead to. -/
theorem exists_namesFile (hd : d.IsTree) {target : Location} (hl : d.locate path = .ok target)
    (hfile : d.IsFileAt target) :
    ∃ init dir name n, Path.steps path = init ++ [name] ∧ Path.names path = init ++ [name] ∧
      Path.endsInSlash path = false ∧ n ≤ maxLinks ∧ Leads d n (d.start path) init dir ∧
      d.NamesFile dir name target := by
  obtain ⟨-, n, hn, hleads⟩ := locate_eq_ok.1 hl
  have hlast : ∀ init name, Path.steps path = init ++ [name] →
      ∃ dir n, n ≤ maxLinks ∧ Leads d n (d.start path) init dir ∧ d.NamesFile dir name target := by
    intro init name hsteps
    rw [hsteps] at hleads
    obtain ⟨a, b, dir, hab, hinit, hname⟩ := hleads.of_append
    exact ⟨dir, a, by omega, hinit, namesFile_of_leads hd hname hfile⟩
  cases hslash : Path.endsInSlash path with
  | true =>
      obtain ⟨dir, n, -, -, hname⟩ := hlast (Path.names path) [] (by simp [Path.steps, hslash])
      exact absurd rfl hname.isName.2.2.2
  | false =>
      have hsteps : Path.steps path = Path.names path := by simp [Path.steps, hslash]
      rcases List.eq_nil_or_concat (Path.names path) with hnil | ⟨init, name, hconcat⟩
      · rw [hsteps, hnil] at hleads
        cases hleads
        have := hd.isDirectoryAt_start path
        rw [hfile.not_isDirectoryAt] at this
        cases this
      · rw [List.concat_eq_append] at hconcat
        obtain ⟨dir, n, hn, hinit, hname⟩ := hlast init name (hsteps.trans hconcat)
        exact ⟨init, dir, name, n, hsteps.trans hconcat, hconcat, rfl, hn, hinit, hname⟩

theorem place_eq_ok {l : Location} : d.place path = .ok l ↔
    checkPath path = .ok () ∧ Path.endsInSlash path = false ∧ ∃ init name dir n,
      Path.names path = init ++ [name] ∧ name ≠ Path.here ∧ name ≠ Path.above ∧ n ≤ maxLinks ∧
        Leads d n (d.start path) init dir ∧ d.isDirectoryAt dir ∧ d.grantsAt .search dir ∧ l = dir ++ [name] := by
  constructor
  · intro h
    unfold place at h
    cases htext : checkPath path with
    | error e =>
        rw [htext] at h
        cases h
    | ok =>
        rw [htext] at h
        simp only [bind, Except.bind] at h
        split at h
        · cases h
        · next name hlast =>
            split at h
            · cases h
            · next hdots =>
                obtain ⟨hdot, hdots⟩ := not_or.1 hdots
                split at h
                · cases h
                · next hslash =>
                    split at h
                    · cases h
                    · next dir hfollow =>
                        split at h
                        · cases h
                        · next hdir =>
                            split at h
                            · cases h
                            · next hsearch =>
                                cases h
                                obtain ⟨n, hn, hinit⟩ := Leads.of_follow hfollow
                                obtain ⟨init, hnames⟩ := List.getLast?_eq_some_iff.1 hlast
                                rw [hnames, List.dropLast_concat] at hinit
                                exact ⟨rfl, by simpa using hslash, init, name, dir, n, hnames, hdot, hdots, hn, hinit,
                                  by simpa using hdir, by simpa using hsearch, rfl⟩
  · rintro ⟨htext, hslash, init, name, dir, n, hnames, hdot, hdots, hn, hinit, hdir, hsearch, rfl⟩
    have hlast : (Path.names path).getLast? = some name := by rw [hnames, List.getLast?_concat]
    have hfollow : d.follow maxLinks (d.start path) (Path.names path).dropLast = .ok dir := by
      rw [hnames, List.dropLast_concat]
      exact hinit.follow_eq hn
    unfold place
    rw [htext, hlast]
    simp only [bind, Except.bind, hdot, hdots, or_self, hslash, Bool.false_eq_true, if_false, hfollow, hdir, hsearch,
      Bool.not_true]

/-- The path names an entry: the names before lead to its directory, and the last name leads on from there. -/
structure Names (d : Disk) (path : Path) (init : List Path) (name : Path) (dir : Location) : Prop where
  checkPath : checkPath path = .ok ()
  names : Path.names path = init ++ [name]
  steps : Path.steps path = init ++ [name]
  isName : IsName name
  admits : d.Admits dir name
  leads : ∃ n k target, n + k ≤ maxLinks ∧ Leads d n (d.start path) init dir ∧ Leads d k dir [name] target
  entry : ∃ e, d.entry? (dir ++ [name]) = some e

theorem exists_names {target l : Location} (htarget : d.locate path = .ok target) (hplace : d.place path = .ok l) :
    ∃ init name dir, l = dir ++ [name] ∧ d.Names path init name dir := by
  obtain ⟨htext, hslash, init, name, dir, n, hnames, hdot, hdots, -, hinit, hdir, -, rfl⟩ := place_eq_ok.1 hplace
  have hsteps : Path.steps path = init ++ [name] := by simp [Path.steps, hslash, hnames]
  obtain ⟨-, total, htotal, hleads⟩ := locate_eq_ok.1 htarget
  rw [hsteps] at hleads
  obtain ⟨a, b, dir', rfl, hinit', hname⟩ := hleads.of_append
  obtain rfl := hinit.unique hinit'
  cases hname with
  | step hdir hmove hrest =>
      have hstep : IsName name ∧ ∃ e, d.entry? (dir ++ [name]) = some e := by
        cases hmove with
        | stay hstays =>
            obtain rfl := hstays.resolve_left hdot
            have hmem : [] ∈ Path.names path := by simp [hnames]
            simp [Path.names] at hmem
        | up => exact absurd rfl hdots
        | enter hstep he | through hstep he => exact ⟨hstep, _, he⟩
      exact ⟨init, name, dir, rfl, htext, hnames, hsteps, hstep.1, hdir,
        ⟨a, _, target, htotal, hinit', .step hdir hmove hrest⟩, hstep.2⟩

theorem place_of_namesFile {init : List Path} {dir target : Location} {name : Path} {n : Nat}
    (htext : checkPath path = .ok ()) (hnames : Path.names path = init ++ [name])
    (hslash : Path.endsInSlash path = false) (hn : n ≤ maxLinks) (hinit : Leads d n (d.start path) init dir)
    (hname : d.NamesFile dir name target) : d.place path = .ok (dir ++ [name]) := by
  obtain ⟨hdot, hdots, -⟩ := hname.isName
  exact place_eq_ok.2 ⟨htext, hslash, init, name, dir, n, hnames, hdot, hdots, hn, hinit, hname.isDirectoryAt_dir,
    hname.grantsAt_dir, rfl⟩

theorem replace_of_namesFile {init : List Path} {dir target : Location} {name : Path} {n mode : Nat}
    {old : Bytes} (htarget : d.locate path = .ok target) (hentry : d.entry? target = some (.file mode old))
    (hnames : Path.names path = init ++ [name]) (hslash : Path.endsInSlash path = false) (hn : n ≤ maxLinks)
    (hinit : Leads d n (d.start path) init dir) (hname : d.NamesFile dir name target) (content : Bytes) :
    d.replace path content = .ok (d.put (dir ++ [name]) (.file mode content)) := by
  have hmode : d.mode path = .ok mode := by
    rw [Disk.mode, stat_of_locate htarget, hentry]
    rfl
  rw [replace, hmode, place_of_namesFile (locate_eq_ok.1 htarget).1 hnames hslash hn hinit hname]
  exact if_neg (by simp [hname.not_isDirectoryAt])

/-- The path leads to an entry that is no link itself. -/
def Finds (d : Disk) (path : Path) (l : Location) (e : Entry) : Prop :=
  d.locate path = .ok l ∧ d.entry? l = some e ∧ ∀ t, e ≠ .link t

theorem stat_eq_ok {e : Entry} : d.stat path = .ok e ↔ ∃ l, d.locate path = .ok l ∧ d.entry? l = some e := by
  cases hl : d.locate path with
  | error cause =>
      rw [stat, hl]
      exact ⟨nofun, nofun⟩
  | ok l =>
      rw [stat_of_locate hl]
      cases he : d.entry? l with
      | none => exact ⟨nofun, by rintro ⟨_, h, he'⟩; cases h; cases he.symm.trans he'⟩
      | some e' =>
          constructor
          · intro h
            cases h
            exact ⟨l, rfl, he⟩
          · rintro ⟨_, h, he'⟩
            cases h
            cases he.symm.trans he'
            rfl

theorem openEntry_of_stat {e : Entry} (h : d.stat path = .ok e) :
    d.openEntry path = if d.grants .read e then .ok e else .error .notPermitted := by
  rw [openEntry, h]
  rfl

theorem read_eq_ok {bytes : Bytes} : d.read path = .ok bytes ↔ ∃ e, d.stat path = .ok e ∧ d.grants .read e ∧
    ((∃ mode, e = .file mode bytes) ∨ ∃ kind, e = .device kind ∧ bytes = kind.content) := by
  cases hstat : d.stat path with
  | error cause =>
      rw [read, openEntry, hstat]
      exact ⟨nofun, nofun⟩
  | ok e =>
      rw [read, openEntry_of_stat hstat]
      cases hgrants : d.grants .read e with
      | false => exact ⟨nofun, by rintro ⟨_, h, hgrants', -⟩; cases h; rw [hgrants] at hgrants'; cases hgrants'⟩
      | true =>
          constructor
          · intro h
            refine ⟨e, rfl, hgrants, ?_⟩
            cases e with
            | file mode content =>
                cases h
                exact .inl ⟨mode, rfl⟩
            | device kind =>
                cases h
                exact .inr ⟨kind, rfl, rfl⟩
            | directory | link => cases h
          · rintro ⟨_, h, -, ⟨mode, rfl⟩ | ⟨kind, rfl, rfl⟩⟩ <;>
            · cases h
              rfl

theorem exists_finds_of_isFile (h : d.isFile path = true) : ∃ l e, d.Finds path l e := by
  obtain ⟨l, hl, mode, content, he⟩ := isFile_iff.1 h
  exact ⟨l, _, hl, he, nofun⟩

theorem stat_congr {d d' : Disk} {path path' : Path} {l : Location} (h : d.locate path = .ok l)
    (h' : d'.locate path' = .ok l) (he : d'.entry? l = d.entry? l) : d'.stat path' = d.stat path := by
  rw [stat_of_locate h, stat_of_locate h', he]

theorem locate_put_self {init : List Path} {dir target : Location} {name : Path} {n : Nat}
    (htext : checkPath path = .ok ()) (hsteps : Path.steps path = init ++ [name]) (hn : n ≤ maxLinks)
    (hinit : Leads d n (d.start path) init dir) (hname : d.NamesFile dir name target) (mode : Nat) (content : Bytes) :
    (d.put (dir ++ [name]) (.file mode content)).locate path = .ok (dir ++ [name]) := by
  have hne : dir ≠ target := by
    rintro rfl
    have := hname.isDirectoryAt_dir
    rw [hname.isFileAt.not_isDirectoryAt] at this
    cases this
  obtain ⟨k, hk, hinit'⟩ := hname.leads_put_of_ne mode content hinit hne
  refine locate_eq_ok.2 ⟨htext, k, Nat.le_trans hk hn, ?_⟩
  rw [hsteps]
  exact hinit'.append hname.leads_put_self

/-- What a replacement does to a tree: the path has the content, and whatever was found is found where it was, or was
the file of the path and is found through the path's new entry. -/
theorem exists_replace_reads (hd : d.IsTree) (hfile : d.isFile path = true) (content : Bytes) :
    ∃ d', d.replace path content = .ok d' ∧ d'.IsTree ∧ d'.isFile path = true ∧
      (∀ old, d.read path = .ok old → d'.read path = .ok content) ∧
      ∀ other l e, d.Finds other l e →
        (d'.locate other = d.locate other ∧ d'.stat other = d.stat other ∧ d'.locate other ≠ d'.locate path) ∨
          (d.locate other = d.locate path ∧ d'.locate other = d'.locate path) := by
  obtain ⟨target, htarget, hfile⟩ := isFile_iff.1 hfile
  obtain ⟨htext, -⟩ := locate_eq_ok.1 htarget
  obtain ⟨init, dir, name, n, hsteps, hnames, hslash, hn, hinit, hname⟩ := exists_namesFile hd htarget hfile
  obtain ⟨mode, old, hentry⟩ := id hfile
  have hreplace := replace_of_namesFile htarget hentry hnames hslash hn hinit hname content
  have hself : entry? (d.put (dir ++ [name]) (.file mode content)) (dir ++ [name]) = some (.file mode content) :=
    entry?_put_self (by simp) _
  have hlocate := locate_put_self htext hsteps hn hinit hname mode content
  refine ⟨_, hreplace, hname.isTree_put hd, isFile_iff.2 ⟨_, hlocate, mode, content, hself⟩, fun old' hold => ?reads,
    fun other l e hfinds => ?others⟩
  case reads =>
    -- The bits stay, and they let the old content be read.
    obtain ⟨e, hstat, hgrants, -⟩ := read_eq_ok.1 hold
    obtain ⟨l, hl, he⟩ := stat_eq_ok.1 hstat
    cases htarget.symm.trans hl
    cases hentry.symm.trans he
    exact read_eq_ok.2 ⟨_, stat_eq_ok.2 ⟨_, hlocate, hself⟩, hgrants, .inl ⟨mode, rfl⟩⟩
  case others =>
    obtain ⟨hl, he, hlink⟩ := hfinds
    obtain ⟨htext', n', hn', hleads⟩ := locate_eq_ok.1 hl
    have hkept (hne : l ≠ dir ++ [name]) {k : Nat} (hk : k ≤ n')
        (hleads' : Leads (d.put (dir ++ [name]) (.file mode content)) k (d.start other) (Path.steps other) l) :
        (d.put (dir ++ [name]) (.file mode content)).locate other = d.locate other ∧
          (d.put (dir ++ [name]) (.file mode content)).stat other = d.stat other ∧
          (d.put (dir ++ [name]) (.file mode content)).locate other ≠
            (d.put (dir ++ [name]) (.file mode content)).locate path := by
      have hl' := locate_eq_ok.2 ⟨htext', k, Nat.le_trans hk hn', hleads'⟩
      refine ⟨hl'.trans hl.symm, stat_congr hl hl' (entry?_put_of_ne _ hne), ?_⟩
      rw [hl', hlocate]
      exact fun h => hne (Except.ok.inj h)
    obtain ⟨k, hk, hleads'⟩ | ⟨rfl, k, hk, hleads'⟩ := hname.leads_put mode content hleads
    · by_cases hl' : l = dir ++ [name]
      · obtain rfl : l = target := by
          by_contra hne
          exact hname.ne_of_entry he hlink hne hl'
        refine .inr ⟨hl.trans htarget.symm, ?_⟩
        exact (locate_eq_ok.2 ⟨htext', k, Nat.le_trans hk hn', hleads'⟩).trans (hlocate.trans (congrArg _ hl'.symm)).symm
      · exact .inl (hkept hl' hk hleads')
    · refine .inr ⟨hl.trans htarget.symm, ?_⟩
      rw [hlocate]
      exact locate_eq_ok.2 ⟨htext', k, Nat.le_trans hk hn', hleads'⟩

theorem exists_replace (hd : d.IsTree) (hfile : d.isFile path = true) (content : Bytes) :
    ∃ d', d.replace path content = .ok d' ∧ d'.IsTree ∧ d'.isFile path = true ∧
      (∀ old, d.read path = .ok old → d'.read path = .ok content) ∧
      ∀ other, d.isFile other = true → d.locate other ≠ d.locate path →
        d'.locate other ≠ d'.locate path ∧ d'.locate other = d.locate other ∧ d'.stat other = d.stat other := by
  obtain ⟨d', hreplace, hd', hfile', hread, hothers⟩ := exists_replace_reads hd hfile content
  refine ⟨d', hreplace, hd', hfile', hread, fun other hother hne => ?_⟩
  obtain ⟨l, e, hfinds⟩ := exists_finds_of_isFile hother
  obtain ⟨hlocate, hstat, hne'⟩ | ⟨heq, -⟩ := hothers other l e hfinds
  · exact ⟨hne', hlocate, hstat⟩
  · exact absurd heq hne

namespace NamesFile

variable {dir target l : Location} {name other : Path} {mode links : Nat} {content : Bytes} {cause : IoError}

theorem place_put (h : d.NamesFile dir name target) (hl : d.place other = .ok l) :
    (d.put (dir ++ [name]) (.file mode content)).place other = .ok l := by
  obtain ⟨htext, hslash, init, last, parent, n, hnames, hdot, hdots, hn, hinit, hparent, hsearch, rfl⟩ :=
    place_eq_ok.1 hl
  have hne : parent ≠ target := by
    rintro rfl
    rw [h.isFileAt.not_isDirectoryAt] at hparent
    cases hparent
  obtain ⟨k, hk, hinit'⟩ := h.leads_put_of_ne mode content hinit hne
  exact place_eq_ok.2 ⟨htext, hslash, init, last, parent, k, hnames, hdot, hdots, Nat.le_trans hk hn, hinit',
    h.isDirectoryAt_put hparent, by rwa [grantsAt_put_of_ne _ _ (h.ne_of_isDirectoryAt hparent)], rfl⟩

theorem eq_or_link (h : d.NamesFile dir name target) :
    target = dir ++ [name] ∨ ∃ t, d.entry? (dir ++ [name]) = some (.link t) := by
  obtain ⟨hname, ⟨n, hleads⟩, -⟩ := h
  cases hleads with
  | step _ hmove hrest =>
      cases hmove with
      | stay hstep => exact absurd hstep hname.not_stays
      | up => exact absurd rfl hname.2.1
      | enter =>
          cases hrest
          exact .inl rfl
      | through _ he => exact .inr ⟨_, he⟩

/-- What comes after the name is asked of a file: nothing is left, or it is no directory, or there were too many links. -/
theorem follow_through (h : d.NamesFile dir name target) {n : Nat} {mid : Location} {more rest : List Path}
    (hleads : Leads d n mid more target) :
    d.follow links mid (more ++ rest) = .error .tooManyLinks ∨
      d.follow links mid (more ++ rest) = .error .notDirectory ∨ d.follow links mid (more ++ rest) = .ok target := by
  by_cases hn : n ≤ links
  · obtain ⟨left, rfl⟩ := Nat.exists_eq_add_of_le hn
    rw [hleads.follow_append]
    cases rest with
    | nil => exact .inr (.inr (by rw [follow]))
    | cons step rest => exact .inr (.inl (by rw [follow, h.isFileAt.not_isDirectoryAt, if_pos (by simp)]))
  · exact .inl (hleads.follow_of_lt (Nat.lt_of_not_le hn) rest)

theorem follow_ne_of_leads (h : d.NamesFile dir name target) (hcause : cause = .nameTooLong ∨ cause = .notPermitted)
    {n : Nat} {mid : Location} {more rest : List Path} (hleads : Leads d n mid more target) :
    d.follow links mid (more ++ rest) ≠ .error cause := by
  intro herror
  have hthrough : d.follow links mid (more ++ rest) = .error .tooManyLinks ∨
      d.follow links mid (more ++ rest) = .error .notDirectory ∨ d.follow links mid (more ++ rest) = .ok target :=
    h.follow_through hleads
  obtain hfar | hend | hfile := hthrough
  · cases hfar.symm.trans herror
    simp at hcause
  · cases hend.symm.trans herror
    simp at hcause
  · cases hfile.symm.trans herror

theorem follow_put_of_move (h : d.NamesFile dir name target) (hcause : cause = .nameTooLong ∨ cause = .notPermitted)
    {here mid : Location} {step : Path} {k : Nat} {more rest : List Path} (hdir : d.Admits here step)
    (hmove : Move d here step k mid more) (hfollow : d.follow links mid (more ++ rest) = .error cause)
    (ih : (d.put (dir ++ [name]) (.file mode content)).follow links mid (more ++ rest) = .error cause) :
    (d.put (dir ++ [name]) (.file mode content)).follow (k + links) here (step :: rest) = .error cause := by
  obtain hmove' | ⟨-, -, n, hmore⟩ := h.move_put hdir hmove
  · rw [hmove'.follow_eq (h.admits_put hdir)]
    exact ih
  · exact absurd hfollow (h.follow_ne_of_leads hcause hmore)

/-- A way that ends at a directory that may not be searched or at a name that is too long does not come past the file. -/
theorem follow_put_of_error (h : d.NamesFile dir name target) (hcause : cause = .nameTooLong ∨ cause = .notPermitted)
    {here : Location} {steps : List Path} (hfollow : d.follow links here steps = .error cause) :
    (d.put (dir ++ [name]) (.file mode content)).follow links here steps = .error cause := by
  induction links, here, steps using follow_induction (d := d) with
  | nil links here =>
      rw [follow] at hfollow
      cases hfollow
  | move hdir hmove ih =>
      rw [hmove.follow_eq hdir] at hfollow
      exact h.follow_put_of_move hcause hdir hmove hfollow (ih hfollow)
  | stop rest hstop =>
      rw [hstop.follow_eq] at hfollow
      cases hfollow
      cases hstop with
      | notDirectory | missing | nowhere | tooManyLinks => simp at hcause
      | notPermitted hdir hstep hsearch =>
          have hsearch' := (grantsAt_put_of_ne .search (.file mode content) (h.ne_of_isDirectoryAt hdir)).trans hsearch
          exact Stops.follow_eq (.notPermitted (h.isDirectoryAt_put hdir) hstep hsearch') rest
      | nameTooLong hdir hstep => exact Stops.follow_eq (.nameTooLong (h.admits_put hdir) hstep) rest

end NamesFile

/-- What a replacement does: the path names an entry, and a file with the permission bits that are found
through the path takes its place. -/
theorem exists_put_of_replace (hd : d.IsTree) (hfile : d.isFile path = true) {d' : Disk} {content : Bytes}
    (h : d.replace path content = .ok d') :
    ∃ dir name target mode old, d.NamesFile dir name target ∧ d.entry? target = some (.file mode old) ∧
      d.place path = .ok (dir ++ [name]) ∧ d.stat path = .ok (.file mode old) ∧
      d' = d.put (dir ++ [name]) (.file mode content) := by
  obtain ⟨target, htarget, mode, old, hentry⟩ := isFile_iff.1 hfile
  obtain ⟨init, dir, name, n, -, hnames, hslash, hn, hinit, hname⟩ := exists_namesFile hd htarget ⟨mode, old, hentry⟩
  refine ⟨dir, name, target, mode, old, hname, hentry, ?_, ?_, ?_⟩
  · exact place_of_namesFile (locate_eq_ok.1 htarget).1 hnames hslash hn hinit hname
  · rw [stat_of_locate htarget, hentry]
  · have hreplace := replace_of_namesFile htarget hentry hnames hslash hn hinit hname content
    exact Except.ok.inj (h.symm.trans hreplace)

theorem locate_replace_of_error (hd : d.IsTree) (hfile : d.isFile path = true) {d' : Disk} {content : Bytes}
    (h : d.replace path content = .ok d') {other : Path} {cause : IoError}
    (hcause : cause = .nameTooLong ∨ cause = .notPermitted) (hother : d.locate other = .error cause) :
    d'.locate other = .error cause := by
  obtain ⟨dir, name, target, mode, old, hname, -, -, -, rfl⟩ := exists_put_of_replace hd hfile h
  unfold locate at hother ⊢
  cases htext : checkPath other with
  | error e =>
      rw [htext] at hother
      exact hother
  | ok =>
      rw [htext] at hother
      exact hname.follow_put_of_error hcause hother

end Inlay.Disk
