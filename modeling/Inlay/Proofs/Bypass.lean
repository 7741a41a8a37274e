import Inlay.Proofs.Lookup
import Inlay.CommandLine.Basic

namespace Inlay

variable {part : Location → Bool}

namespace Disk

variable {d d' : Disk} {start here l : Location} {path root name : Path} {extension : String}

/-- The directories that a walk from `start` comes to, as long as it stays outside of the part. -/
inductive Walks (d : Disk) (part : Location → Bool) (start : Location) : Location → Prop
  | start : Walks d part start start
  | down {l : Location} {name : Path} (h : Walks d part start l) (hname : part (l ++ [name]) = false)
      (hdir : d.isDirectoryAt (l ++ [name])) : Walks d part start (l ++ [name])
  | through {l l' : Location} {name target : Path} {n : Nat} (h : Walks d part start l)
      (hname : part (l ++ [name]) = false) (he : d.entry? (l ++ [name]) = some (.link target))
      (hleads : Leads d n (linkStart l target) (Path.steps target) l') (hdir : d.isDirectoryAt l') :
      Walks d part start l'

/-- A walk from the path goes by the part: no link that it comes to leads into it, and an entry of the part that it
comes to is a regular file without the extension. -/
structure PassesBy (d : Disk) (part : Location → Bool) (extension : String) (path : Path) : Prop where
  misses : d.Misses part path
  link : ∀ start l name target, d.locate path = .ok start → d.Walks part start l → part (l ++ [name]) = false →
    d.entry? (l ++ [name]) = some (.link target) → d.Avoids part (linkStart l target) (Path.steps target)
  quiet : ∀ start l name e, d.locate path = .ok start → d.Walks part start l → part (l ++ [name]) = true →
    d.entry? (l ++ [name]) = some e → e.isFile = true ∧ Path.extensionOf? name ≠ some (Text.encode extension)

namespace SameApart

theorem stat (h : SameApart part d d') (hmisses : d.Misses part path) : d'.stat path = d.stat path := by
  have hlocate := h.locate hmisses
  cases hl : d.locate path with
  | error cause =>
      rw [Disk.stat, Disk.stat, hlocate, hl]
      rfl
  | ok l => exact stat_congr hl (hlocate.trans hl) (h.entry l (hmisses.outside h.isClosed hl))

theorem isFile (h : SameApart part d d') (hmisses : d.Misses part path) : d'.isFile path = d.isFile path := by
  rw [Disk.isFile, h.stat hmisses, Disk.isFile]

theorem isDirectory (h : SameApart part d d') (hmisses : d.Misses part path) :
    d'.isDirectory path = d.isDirectory path := by
  rw [Disk.isDirectory, h.stat hmisses, Disk.isDirectory]

theorem mode (h : SameApart part d d') (hmisses : d.Misses part path) : d'.mode path = d.mode path := by
  rw [Disk.mode, h.stat hmisses, Disk.mode]

theorem read (h : SameApart part d d') (hmisses : d.Misses part path) : d'.read path = d.read path := by
  rw [Disk.read, Disk.openEntry, h.stat hmisses, h.grants, Disk.read, Disk.openEntry]

theorem workingPath (h : SameApart part d d') : d'.workingPath = d.workingPath := by
  rw [Disk.workingPath, h.working, Disk.workingPath]

theorem leads (h : SameApart part d d') {n : Nat} {steps : List Path} (havoids : d.Avoids part here steps)
    (hleads : Leads d n here steps l) : ∃ n', Leads d' n' here steps l := by
  have hfollow := (h.follow havoids n).trans (hleads.follow_eq (Nat.le_refl n))
  obtain ⟨n', -, hleads'⟩ := Leads.of_follow hfollow
  exact ⟨n', hleads'⟩

end SameApart

namespace PassesBy

theorem isBeside (h : d.PassesBy part extension path) (hpart : IsClosed part) (hl : d.locate path = .ok start) :
    IsBeside part d (d.Walks part start) where
  outside l hwalks := by
    cases hwalks with
    | start => exact h.misses.outside hpart hl
    | down _ hname => exact hname
    | through hwalks hname he hleads => exact (h.link _ _ _ _ hl hwalks hname he).of_leads hpart hleads
  below _ _ := .down
  link l name target hwalks := h.link start l name target hl hwalks
  through _ _ _ _ _ := .through

theorem walks (h : d.PassesBy part extension path) (hsame : SameApart part d d') (hl : d.locate path = .ok start)
    (hwalks : d.Walks part start l) : d'.Walks part start l := by
  have hbeside := h.isBeside hsame.isClosed hl
  induction hwalks with
  | start => exact .start
  | down _ hname hdir ih => exact ih.down hname ((hsame.isDirectoryAt hname).trans hdir)
  | through hwalks hname he hleads hdir ih =>
      obtain ⟨n', hleads'⟩ := hsame.leads (hbeside.link _ _ _ hwalks hname he) hleads
      have houtside := hbeside.outside _ (hwalks.through hname he hleads hdir)
      exact ih.through hname ((hsame.entry _ hname).trans he) hleads' ((hsame.isDirectoryAt houtside).trans hdir)

theorem isFile_of_mem_children (h : d.PassesBy part extension path) (hl : d.locate path = .ok start)
    (hwalks : d.Walks part start here) {c : Path × Entry} (hc : c ∈ d.children here)
    (hpart : part (here ++ [c.1]) = true) :
    (∃ mode content, c.2 = .file mode content) ∧ Path.extensionOf? c.1 ≠ some (Text.encode extension) := by
  obtain ⟨-, hentry⟩ := entry?_of_mem_children hc
  obtain ⟨hfile, hext⟩ := h.quiet start here c.1 c.2 hl hwalks hpart hentry
  refine ⟨?_, hext⟩
  cases hce : c.2 with
  | file mode content => exact ⟨mode, content, rfl⟩
  | directory | link | device =>
      rw [hce] at hfile
      cases hfile

theorem skips (h : d.PassesBy part extension path) (hnamed : d.IsNamed) (hl : d.locate path = .ok start)
    {area : Location → Prop} (harea : ∀ l, area l → d.Walks part start l) :
    d.Skips part extension (fun _ => False) area := by
  intro stack path' here hhere hl' c hc hpart
  obtain ⟨⟨mode, content, hfile⟩, hext⟩ := h.isFile_of_mem_children hl (harea here hhere) hc hpart
  obtain ⟨hkey, -⟩ := entry?_of_mem_children hc
  obtain ⟨hname, hcomponent⟩ := hnamed _ hkey c.1 (by simp)
  obtain ⟨-, hne, -⟩ := checkPath_eq_ok (locate_eq_ok.1 hl').1
  have hmeet : d.meet stack here (Path.join path' c.1) c.1 c.2 = .ok .file := by
    rw [hfile]
    rfl
  refine .inl ?_
  unfold visitEntry
  rw [hmeet, Path.extension?_join hne hcomponent ⟨hname.1, hname.2.1⟩, if_neg hext]
  dsimp only
  split <;> rfl

theorem beside (h : d.PassesBy part extension path) (h' : d'.PassesBy part extension path)
    (hsame : SameApart part d d') (hnamed : d.IsNamed) (hnamed' : d'.IsNamed) (hl : d.locate path = .ok start) :
    Beside part d d' extension (fun _ => False) (fun _ => False) (d.Walks part start) where
  same := hsame
  isNamed := hnamed
  isBeside := h.isBeside hsame.isClosed hl
  skips := h.skips hnamed hl fun _ hwalks => hwalks
  skips' := h'.skips hnamed' ((hsame.locate h.misses).trans hl) fun _ hwalks => h.walks hsame hl hwalks

end PassesBy

theorem eq_of_agree {α : Type} {r r' : Except WalkError α} (h : Agree (fun _ => False) (fun _ => False) r r') :
    r' = r := by
  obtain heq | ⟨_, -, hfalse⟩ | ⟨_, -, hfalse⟩ := h
  · exact heq
  · exact hfalse.elim
  · exact hfalse.elim

theorem files_of_locate_eq_error {cause : IoError} (h : d.locate path = .error cause) (extension : String) :
    d.files path extension = .error (.io path cause) := by
  rw [files, h]

theorem files_of_passesBy (hsame : SameApart part d d') (hnamed : d.IsNamed) (hnamed' : d'.IsNamed)
    (h : d.PassesBy part extension path) (h' : d'.PassesBy part extension path) :
    d'.files path extension = d.files path extension ∧
      ∀ listed, d.files path extension = .ok listed → ∀ f ∈ listed, d.Misses part f := by
  cases hl : d.locate path with
  | error cause =>
      have hl' := (hsame.locate h.misses).trans hl
      rw [files_of_locate_eq_error hl, files_of_locate_eq_error hl']
      exact ⟨rfl, nofun⟩
  | ok start =>
      have hbeside := h.beside h' hsame hnamed hnamed' hl
      have harea : ∀ l, d.locate path = .ok l → d.isDirectoryAt l → d.Walks part start l := by
        intro l hl' _
        cases hl.symm.trans hl'
        exact .start
      exact ⟨eq_of_agree (hbeside.files h.misses harea), fun listed => hbeside.misses_of_mem_files h.misses harea⟩

theorem entered_of_passesBy (hsame : SameApart part d d') (hnamed : d.IsNamed)
    (h : d.PassesBy part extension root) (h' : d'.PassesBy part extension root) (hl : d.locate root = .ok start)
    (hwalks : d.Walks part start here) (hmisses : d.Misses part path)
    (hpath : ∀ l, d.locate path = .ok l → l = here) (stack : List Standing) :
    d'.entered stack path here = d.entered stack path here := by
  have hskip {d : Disk} (h : d.PassesBy part extension root) (hl : d.locate root = .ok start)
      (hwalks : d.Walks part start here) : (d.children here).filterMap
        (fun c => (directory? (d.meet stack here (Path.join path c.1) c.1 c.2)).map (c.1, ·)) =
      ((d.children here).filter fun c => !part (here ++ [c.1])).filterMap
        (fun c => (directory? (d.meet stack here (Path.join path c.1) c.1 c.2)).map (c.1, ·)) := by
    rw [List.filterMap_filter]
    refine List.filterMap_congr fun c hc => ?_
    cases hpart : part (here ++ [c.1]) with
    | false => rfl
    | true =>
        obtain ⟨⟨mode, content, hfile⟩, -⟩ := h.isFile_of_mem_children hl hwalks hc hpart
        rw [hfile]
        rfl
  rw [entered, childrenOf, hsame.readDirectory hmisses, entered, childrenOf]
  cases hread : d.readDirectory path with
  | error fault => rfl
  | ok l =>
      obtain ⟨hl', -⟩ := readDirectory_eq_ok.1 hread
      obtain rfl := hpath l hl'
      dsimp only
      rw [hskip h hl hwalks, hskip h' ((hsame.locate h.misses).trans hl) (h.walks hsame hl hwalks), hsame.children]
      refine List.filterMap_congr fun c hc => ?_
      obtain ⟨hc, houtside⟩ := List.mem_filter.1 hc
      obtain ⟨hkey, -⟩ := entry?_of_mem_children hc
      have hname := hnamed _ hkey c.1 (by simp)
      have hjoin := (h.isBeside hsame.isClosed hl).misses_join hsame.isClosed hwalks hmisses hl' hname.2
        (by simpa using houtside)
      rw [hsame.meet hjoin]

theorem directoriesNamed_of_passesBy (hsame : SameApart part d d') (hnamed : d.IsNamed)
    (h : d.PassesBy part extension root) (h' : d'.PassesBy part extension root) (hdir : d.isDirectory root)
    (key : Path) : d'.directoriesNamed key root = d.directoriesNamed key root := by
  obtain ⟨start, hs⟩ := isDirectory_iff.1 hdir
  obtain ⟨start', hs'⟩ := isDirectory_iff.1 ((hsame.isDirectory h.misses).trans hdir)
  obtain rfl : start' = start := Except.ok.inj (hs'.locate.symm.trans ((hsame.locate h.misses).trans hs.locate))
  have hbeside := h.isBeside hsame.isClosed hs.locate
  have hroot := entered_of_passesBy hsame hnamed h h' hs.locate .start h.misses
    (fun l hl => Except.ok.inj (hl.symm.trans hs.locate)) [⟨root, start'⟩]
  rw [directoriesNamed_eq hs, directoriesNamed_eq hs', hroot]
  congr 1
  refine List.flatMap_congr fun s hmem => ?_
  obtain ⟨name, l⟩ := s
  have hopens := (mem_entered.1 hmem).2
  obtain ⟨e, he⟩ : ∃ e, d.entry? (start' ++ [name]) = some e := by
    cases hopens with
    | directory he | link he => exact ⟨_, he⟩
  have hm : d.meet [⟨root, start'⟩] start' (Path.join root name) name e = .ok (.directory l) :=
    (meet_eq_directory_iff he).2 hopens
  have hkey := (entry?_of_mem_children (mem_children.2 he)).1
  have hname := hnamed _ hkey name (by simp)
  have houtside : part (start' ++ [name]) = false := by
    by_contra hpart
    obtain ⟨⟨mode, content, hfile⟩, -⟩ :=
      h.isFile_of_mem_children hs.locate .start (mem_children.2 he) (by simpa using hpart)
    obtain rfl : e = .file mode content := hfile
    cases hm
  have hwalks := hbeside.area_of_meet .start hs.isDirectoryAt hs.locate hname he houtside hm
  have hjoin := hbeside.misses_join hsame.isClosed .start h.misses hs.locate hname.2 houtside
  obtain ⟨-, hpath⟩ := directory_of_meet hs.locate hs.isDirectoryAt hname he hm
  rw [namesAt, namesBelow, entered_of_passesBy hsame hnamed h h' hs.locate hwalks hjoin hpath, namesAt,
    namesBelow]

end Disk

namespace Explorer

variable {x : Explorer} {d d' : Disk} {q : Request}

/-- Where the request looks for its files, it goes by the part. -/
structure Overlooks (x : Explorer) (d : Disk) (part : Location → Bool) (q : Request) : Prop where
  isNamed : d.IsNamed
  file : ∀ path, q.target = .ok (.file path) → d.Misses part path
  configured : ∀ key path, q.target = .ok (.package key) → x.packages.paths.get? key = some path → d.Misses part path
  root : ∀ key root, q.target = .ok (.package key) → x.packages.configured? d key = none → root ∈ x.packages.roots →
    d.PassesBy part x.fileExtension root
  package : ∀ key path, q.target = .ok (.package key) → x.packages.path? d key = some path →
    d.PassesBy part x.fileExtension (Path.join path x.packages.fusionPath)

namespace Overlooks

theorem configured? (h : x.Overlooks d part q) (hsame : Disk.SameApart part d d') {key : String}
    (htarget : q.target = .ok (.package key)) : x.packages.configured? d' key = x.packages.configured? d key := by
  rw [Packages.configured?, Packages.configured?]
  cases hpath : x.packages.paths.get? key with
  | none => rfl
  | some path => rw [Option.filter_some, Option.filter_some, hsame.isDirectory (h.configured key path htarget hpath)]

theorem path? (h : x.Overlooks d part q) (h' : x.Overlooks d' part q) (hsame : Disk.SameApart part d d') {key : String}
    (htarget : q.target = .ok (.package key)) : x.packages.path? d' key = x.packages.path? d key := by
  have hconfigured := h.configured? hsame htarget
  rw [Packages.path?, hconfigured, Packages.path?]
  cases hnone : x.packages.configured? d key with
  | some path => rfl
  | none =>
      have hroot := fun root => h.root key root htarget hnone
      have hroot' := fun root => h'.root key root htarget (hconfigured.trans hnone)
      have hdirectories : x.packages.roots.filter d'.isDirectory = x.packages.roots.filter d.isDirectory :=
        List.filter_congr fun root hmem => hsame.isDirectory (hroot root hmem).misses
      dsimp only
      rw [Packages.search?, hdirectories, Packages.search?]
      congr 1
      refine List.flatMap_congr fun root hmem => ?_
      obtain ⟨hmem, hdir⟩ := List.mem_filter.1 hmem
      exact Disk.directoriesNamed_of_passesBy hsame h.isNamed (hroot root hmem) (hroot' root hmem) hdir _

theorem listFiles (h : x.Overlooks d part q) (h' : x.Overlooks d' part q) (hsame : Disk.SameApart part d d')
    {key : String} {path : Path} (htarget : q.target = .ok (.package key)) (hpath : x.packages.path? d key = some path) :
    Inlay.listFiles d' (Path.join path x.packages.fusionPath) x.fileExtension =
        Inlay.listFiles d (Path.join path x.packages.fusionPath) x.fileExtension ∧
      ∀ files, Inlay.listFiles d (Path.join path x.packages.fusionPath) x.fileExtension = .ok files →
        ∀ f ∈ files, d.Misses part f := by
  obtain ⟨hfiles, hmisses⟩ := Disk.files_of_passesBy hsame h.isNamed h'.isNamed (h.package key path htarget hpath)
    (h'.package key path htarget ((h.path? h' hsame htarget).trans hpath))
  rw [Inlay.listFiles, hfiles, Inlay.listFiles]
  refine ⟨rfl, fun files hlisted => ?_⟩
  cases hd : d.files (Path.join path x.packages.fusionPath) x.fileExtension with
  | error fault =>
      rw [hd] at hlisted
      cases hlisted
  | ok listed =>
      rw [hd] at hlisted
      cases hlisted
      exact hmisses _ hd

theorem resolve (h : x.Overlooks d part q) (h' : x.Overlooks d' part q) (hsame : Disk.SameApart part d d') :
    x.resolve d' q = x.resolve d q ∧ ∀ files, x.resolve d q = .ok files → ∀ f ∈ files, d.Misses part f := by
  unfold Explorer.resolve
  split
  · exact ⟨rfl, fun _ hfs => by cases hfs⟩
  · cases htarget : q.target with
    | error e => exact ⟨rfl, fun _ hfs => by cases hfs⟩
    | ok target =>
        simp only [bind, Except.bind]
        cases target with
        | file path =>
            have hmisses := h.file path htarget
            rw [files, files, hsame.isFile hmisses]
            refine ⟨rfl, fun fs hfs => ?_⟩
            split at hfs
            · cases hfs
              intro f hf
              obtain rfl := List.mem_singleton.1 hf
              exact hmisses
            · cases hfs
        | package key =>
            simp only [files, Packages.fusionDirectory, h.path? h' hsame htarget]
            cases hpath : x.packages.path? d key with
            | none => exact ⟨rfl, fun _ hfs => by cases hfs⟩
            | some path =>
                obtain ⟨heq, hmisses⟩ := h.listFiles h' hsame htarget hpath
                have hdirectory := hsame.isDirectory (h.package key path htarget hpath).misses
                simp only [bind, Except.bind, hdirectory]
                cases d.isDirectory (Path.join path x.packages.fusionPath) with
                | false => exact ⟨rfl, fun _ hfs => by cases hfs⟩
                | true => exact ⟨heq, hmisses⟩

theorem warnings (h : x.Overlooks d part q) (hsame : Disk.SameApart part d d') : x.warnings d' q = x.warnings d q := by
  unfold Explorer.warnings
  split
  · rfl
  · cases htarget : q.target with
    | error e => rfl
    | ok target =>
        cases target with
        | file path => rfl
        | package key =>
            dsimp only
            rw [Packages.warnings, Packages.warnings]
            cases hpath : x.packages.paths.get? key with
            | none => rfl
            | some path => rw [Option.filter_some, Option.filter_some, hsame.isDirectory (h.configured key path htarget hpath)]

end Overlooks

end Explorer

end Inlay
