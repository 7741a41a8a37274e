import Inlay.Diff.Hunk
import Inlay.Proofs.Edits
import Mathlib.Data.List.Chain
import Mathlib.Data.List.TakeWhile

namespace Inlay.Diff.Block

variable {i j : Nat}

def oldLines : Block → List Line
  | keep _ _ ls => ls
  | change _ _ removed _ => removed

def newLines : Block → List Line
  | keep _ _ ls => ls
  | change _ _ _ added => added

def keptLines : Block → List Line
  | keep _ _ ls => ls
  | change .. => []

def IsKeep : Block → Prop
  | keep .. => True
  | change .. => False

/-- A kept block records the lines before it, a change those before it on the sides where it has lines. -/
def IsPlaced (i j : Nat) : Block → Prop
  | keep o w _ => o = i ∧ w = j
  | change o w removed added => (removed ≠ [] → o = i) ∧ (added ≠ [] → w = j)

theorem oldEnd_eq (b : Block) : b.oldEnd = b.oldStart + b.oldLines.length := by cases b <;> rfl

theorem oldStart_eq {b : Block} (h : b.IsPlaced i j) : b.oldStart = i ∨ ∃ o w added, b = change o w [] added := by
  match b with
  | keep o w ls => exact .inl h.1
  | change o w [] added => exact .inr ⟨o, w, added, rfl⟩
  | change o w (l :: ls) added => exact .inl (h.1 (List.cons_ne_nil l ls))

def oldSide (bs : List Block) : List Line := bs.flatMap oldLines

def newSide (bs : List Block) : List Line := bs.flatMap newLines

def kept (bs : List Block) : List Line := bs.flatMap keptLines

def ArePlaced : List Block → Nat → Nat → Prop
  | [], _, _ => True
  | b :: bs, i, j => b.IsPlaced i j ∧ ArePlaced bs (i + b.oldLines.length) (j + b.newLines.length)

section

variable (b : Block) (bs cs : List Block)

@[simp] theorem oldSide_nil : oldSide [] = [] := rfl

@[simp] theorem newSide_nil : newSide [] = [] := rfl

@[simp] theorem kept_nil : kept [] = [] := rfl

@[simp] theorem oldSide_cons : oldSide (b :: bs) = b.oldLines ++ oldSide bs := rfl

@[simp] theorem newSide_cons : newSide (b :: bs) = b.newLines ++ newSide bs := rfl

@[simp] theorem kept_cons : kept (b :: bs) = b.keptLines ++ kept bs := rfl

@[simp] theorem oldSide_append : oldSide (bs ++ cs) = oldSide bs ++ oldSide cs := List.flatMap_append

@[simp] theorem newSide_append : newSide (bs ++ cs) = newSide bs ++ newSide cs := List.flatMap_append

@[simp] theorem kept_append : kept (bs ++ cs) = kept bs ++ kept cs := List.flatMap_append

end

theorem arePlaced_append {bs cs : List Block} : ArePlaced (bs ++ cs) i j ↔
    ArePlaced bs i j ∧ ArePlaced cs (i + (oldSide bs).length) (j + (newSide bs).length) := by
  induction bs generalizing i j with
  | nil => simp [ArePlaced]
  | cons b bs ih =>
      simp only [List.cons_append, ArePlaced, ih, oldSide_cons, newSide_cons, List.length_append, and_assoc,
        Nat.add_assoc]

/-- The blocks have the sides and the kept lines of the script, and they are placed if its edits are. -/
structure Reads (s : Script) (bs : List Block) : Prop where
  oldSide : oldSide bs = Script.oldSide s
  newSide : newSide bs = Script.newSide s
  kept : kept bs = Script.kept s
  arePlaced : ∀ i j, Script.IsPlaced s i j → ArePlaced bs i j

namespace Reads

variable {s t : Script} {bs cs : List Block}

theorem append (h : Reads s bs) (h' : Reads t cs) : Reads (s ++ t) (bs ++ cs) := by
  refine ⟨?_, ?_, ?_, fun i j hs => ?_⟩
  · simp [h.oldSide, h'.oldSide]
  · simp [h.newSide, h'.newSide]
  · simp [h.kept, h'.kept]
  · rw [Script.isPlaced_append] at hs
    rw [arePlaced_append, h.oldSide, h.newSide]
    exact ⟨h.arePlaced i j hs.1, h'.arePlaced _ _ hs.2⟩

theorem of_keep {e : Edit} {es : Script} (he : e.kind = .keep) (hes : ∀ x ∈ es, x.kind = .keep) :
    Reads (e :: es) [keep e.oldStart e.newStart (e.lines ++ es.flatMap (·.lines))] := by
  have hold : Script.oldSide es = es.flatMap (·.lines) :=
    List.flatMap_congr fun x hx => by simp [Edit.oldLines, hes x hx]
  have hnew : Script.newSide es = es.flatMap (·.lines) :=
    List.flatMap_congr fun x hx => by simp [Edit.newLines, hes x hx]
  have hkept : Script.kept es = es.flatMap (·.lines) := List.flatMap_congr fun x hx => if_pos (hes x hx)
  refine ⟨?_, ?_, ?_, fun i j hs => ⟨⟨hs.1 ?_, hs.2.1 ?_⟩, trivial⟩⟩
  · change _ = e.oldLines ++ Script.oldSide es
    simp [hold, Edit.oldLines, he, oldLines]
  · change _ = e.newLines ++ Script.newSide es
    simp [hnew, Edit.newLines, he, newLines]
  · change _ = (if e.kind = .keep then e.lines else []) ++ Script.kept es
    simp [hkept, he, keptLines]
  · simp [he]
  · simp [he]

end Reads

section Changes

variable {es : Script}

theorem flatMap_filter {k : Kind} {lines : Edit → List Line}
    (h : ∀ e ∈ es, lines e = if e.kind = k then e.lines else []) :
    (es.filter (·.kind = k)).flatMap (·.lines) = es.flatMap lines := by
  induction es with
  | nil => rfl
  | cons e es ih =>
      have hrest := ih fun x hx => h x (List.mem_cons_of_mem e hx)
      have he := h e List.mem_cons_self
      rw [List.flatMap_cons, he, ← hrest]
      by_cases hk : e.kind = k
      · simp [hk]
      · simp [hk]

theorem oldStart_of_filter {r : Edit} {rest : Script} (h : ∀ e ∈ es, e.kind ≠ .keep) (hs : Script.IsPlaced es i j)
    (hfilter : es.filter (·.kind = .remove) = r :: rest) : r.oldStart = i := by
  induction es generalizing i j with
  | nil => simp at hfilter
  | cons e es ih =>
      obtain ⟨ho, -, hs⟩ := hs
      cases hk : e.kind with
      | keep => exact absurd hk (h e List.mem_cons_self)
      | remove =>
          obtain ⟨rfl, -⟩ : e = r ∧ _ := by simpa [hk] using hfilter
          exact ho (by simp [hk])
      | add =>
          -- An addition has no old lines, so the next edit stands where this one does.
          have hnone : e.oldLines = [] := by simp [Edit.oldLines, hk]
          rw [hnone] at hs
          exact ih (fun x hx => h x (List.mem_cons_of_mem e hx)) hs (by simpa [hk] using hfilter)

theorem newStart_of_filter {a : Edit} {rest : Script} (h : ∀ e ∈ es, e.kind ≠ .keep) (hs : Script.IsPlaced es i j)
    (hfilter : es.filter (·.kind = .add) = a :: rest) : a.newStart = j := by
  induction es generalizing i j with
  | nil => simp at hfilter
  | cons e es ih =>
      obtain ⟨-, hw, hs⟩ := hs
      cases hk : e.kind with
      | keep => exact absurd hk (h e List.mem_cons_self)
      | remove =>
          have hnone : e.newLines = [] := by simp [Edit.newLines, hk]
          rw [hnone] at hs
          exact ih (fun x hx => h x (List.mem_cons_of_mem e hx)) hs (by simpa [hk] using hfilter)
      | add =>
          obtain ⟨rfl, -⟩ : e = a ∧ _ := by simpa [hk] using hfilter
          exact hw (by simp [hk])

theorem exists_ofEdits (es : Script) : ∃ o w, ofEdits es =
    change o w ((es.filter (·.kind = .remove)).flatMap (·.lines)) ((es.filter (·.kind = .add)).flatMap (·.lines)) := by
  rw [ofEdits]
  split
  · exact ⟨_, _, rfl⟩
  · exact ⟨_, _, rfl⟩
  · exact ⟨_, _, rfl⟩
  · next hr ha => exact ⟨0, 0, by simp [hr, ha]⟩

theorem Reads.of_changes (h : ∀ e ∈ es, e.kind ≠ .keep) : Reads es [ofEdits es] := by
  have hold : (es.filter (·.kind = .remove)).flatMap (·.lines) = Script.oldSide es :=
    flatMap_filter fun e he => by
      have := h e he
      cases hk : e.kind <;> simp_all [Edit.oldLines]
  have hnew : (es.filter (·.kind = .add)).flatMap (·.lines) = Script.newSide es :=
    flatMap_filter fun e he => by
      have := h e he
      cases hk : e.kind <;> simp_all [Edit.newLines]
  have hkept : Script.kept es = [] := List.flatMap_eq_nil_iff.2 fun e he => if_neg (h e he)
  obtain ⟨o, w, hchange⟩ := exists_ofEdits es
  refine ⟨?_, ?_, ?_, fun i j hs => ⟨?_, trivial⟩⟩
  · simp [hchange, hold, oldLines]
  · simp [hchange, hnew, newLines]
  · simp [hchange, hkept, keptLines]
  · rw [ofEdits]
    split
    · next r _ a _ hr ha =>
        exact ⟨fun _ => oldStart_of_filter h hs hr, fun _ => newStart_of_filter h hs ha⟩
    · next e _ hr ha =>
        exact ⟨fun _ => oldStart_of_filter h hs hr, fun hne => absurd (by simp [ha]) hne⟩
    · next e _ hr ha =>
        exact ⟨fun hne => absurd (by simp [hr]) hne, fun _ => newStart_of_filter h hs ha⟩
    · exact ⟨fun hne => absurd rfl hne, fun hne => absurd rfl hne⟩

end Changes

theorem reads_blocks (s : Script) : Reads s (blocks s) := by
  fun_induction blocks s with
  | case1 => exact ⟨rfl, rfl, rfl, fun _ _ _ => trivial⟩
  | case2 e es he more ih =>
      have hmore (x : Edit) (hx : x ∈ more) : x.kind = .keep := by simpa using List.mem_takeWhile_imp hx
      have hreads := (Reads.of_keep he hmore).append ih
      rwa [List.cons_append, List.takeWhile_append_dropWhile] at hreads
  | case3 e es he more ih =>
      have hmore (x : Edit) (hx : x ∈ e :: more) : x.kind ≠ .keep := by
        rcases List.mem_cons.1 hx with rfl | hx
        · exact he
        · simpa using List.mem_takeWhile_imp hx
      have hreads := (Reads.of_changes hmore).append ih
      rwa [List.cons_append, List.takeWhile_append_dropWhile] at hreads

section Alternate

/-- A change has lines, and no two kept blocks stand side by side. -/
structure Alternate (bs : List Block) : Prop where
  filled : ∀ b ∈ bs, b.IsKeep ∨ b.oldLines ++ b.newLines ≠ []
  separate : bs.IsChain fun b c => b.IsKeep → ¬ c.IsKeep

theorem not_isKeep_ofEdits (es : Script) : ¬ (ofEdits es).IsKeep := by
  obtain ⟨o, w, hchange⟩ := exists_ofEdits es
  rw [hchange]
  exact id

theorem lines_ofEdits_ne_nil {e : Edit} (hk : e.kind ≠ .keep) (he : e.lines ≠ []) (es : Script) :
    (ofEdits (e :: es)).oldLines ++ (ofEdits (e :: es)).newLines ≠ [] := by
  obtain ⟨o, w, hchange⟩ := exists_ofEdits (e :: es)
  rw [hchange, oldLines, newLines]
  cases hkind : e.kind with
  | keep => exact absurd hkind hk
  | remove => simp [hkind, he]
  | add => simp [hkind, he]

theorem isKeep_head_blocks {s : Script} {b : Block} (hb : b ∈ (blocks s).head?) (hkeep : b.IsKeep) :
    ∃ e ∈ s.head?, e.kind = .keep := by
  cases s with
  | nil => simp [blocks] at hb
  | cons e es =>
      by_cases he : e.kind = .keep
      · exact ⟨e, rfl, he⟩
      · rw [blocks, if_neg he] at hb
        obtain rfl : ofEdits (e :: _) = b := by simpa using hb
        exact absurd hkeep (not_isKeep_ofEdits _)

theorem alternate_blocks {s : Script} (hs : Script.AreFilled s) : Alternate (blocks s) := by
  fun_induction blocks s with
  | case1 => exact ⟨List.forall_mem_nil _, .nil⟩
  | case2 e es he more ih =>
      obtain ⟨hfilled, hseparate⟩ := ih fun x hx =>
        hs x (List.mem_cons_of_mem e ((List.dropWhile_sublist _).subset hx))
      refine ⟨List.forall_mem_cons.2 ⟨.inl trivial, hfilled⟩, hseparate.cons fun b hb _ hkeep => ?_⟩
      obtain ⟨x, hx, hxkeep⟩ := isKeep_head_blocks hb hkeep
      have hnot := List.head?_dropWhile_not (fun e : Edit => decide (e.kind = .keep)) es
      rw [Option.mem_def.1 hx] at hnot
      simp [hxkeep] at hnot
  | case3 e es he more ih =>
      obtain ⟨hfilled, hseparate⟩ := ih fun x hx =>
        hs x (List.mem_cons_of_mem e ((List.dropWhile_sublist _).subset hx))
      refine ⟨List.forall_mem_cons.2 ⟨.inr (lines_ofEdits_ne_nil he (hs e List.mem_cons_self he) more), hfilled⟩,
        hseparate.cons fun b _ hkeep => absurd hkeep (not_isKeep_ofEdits _)⟩

end Alternate

section Trim

variable {bs : List Block} {b : Block} {p q : Prop}

def StartsIn (bs : List Block) (p : Prop) : Prop := ∀ b ∈ bs.head?, b.IsKeep ∨ p

def EndsIn (bs : List Block) (p : Prop) : Prop := ∀ b ∈ bs.getLast?, b.IsKeep ∨ p

theorem StartsIn.imp (h : StartsIn bs p) (hpq : p → q) : StartsIn bs q := fun b hb => (h b hb).imp_right hpq

theorem EndsIn.imp (h : EndsIn bs p) (hpq : p → q) : EndsIn bs q := fun b hb => (h b hb).imp_right hpq

theorem startsIn_cons (hb : b.IsKeep) (bs : List Block) : StartsIn (b :: bs) p := by
  rintro _ ⟨⟩
  exact .inl hb

theorem endsIn_append_singleton (hb : b.IsKeep) (bs : List Block) : EndsIn (bs ++ [b]) p := by
  intro c hc
  obtain rfl : b = c := by simpa using hc
  exact .inl hb

theorem StartsIn.of_append {c : Block} {after : List Block} (h : StartsIn (bs ++ c :: after) p) (hb : b.IsKeep) :
    StartsIn (bs ++ [b]) p := by
  cases bs with
  | nil => exact startsIn_cons hb []
  | cons d bs => exact h

theorem EndsIn.of_append {c : Block} {before : List Block} (h : EndsIn (before ++ c :: bs) p) (hb : b.IsKeep) :
    EndsIn (b :: bs) p := by
  cases bs with
  | nil => exact endsIn_append_singleton hb []
  | cons d bs =>
      intro e he
      rw [List.getLast?_cons_cons] at he
      refine h e ?_
      rwa [List.getLast?_append_cons, List.getLast?_cons_cons]

@[simp] theorem isKeep_firstLines (n : Nat) (b : Block) : (b.firstLines n).IsKeep ↔ b.IsKeep := by cases b <;> rfl

theorem arePlaced_keep_drop {o w m : Nat} {ls : List Line} (hm : m ≤ ls.length)
    (h : ArePlaced (keep o w ls :: bs) i j) : ArePlaced (keep (o + m) (w + m) (ls.drop m) :: bs) (i + m) (j + m) := by
  obtain ⟨⟨rfl, rfl⟩, hrest⟩ := h
  refine ⟨⟨rfl, rfl⟩, ?_⟩
  simp only [oldLines, newLines, List.length_drop] at hrest ⊢
  rwa [Nat.add_assoc, Nat.add_assoc, Nat.add_sub_cancel' hm]

theorem exists_skipped {n o w : Nat} {ls : List Line} (hlong : 2 * n < ls.length) : ∃ skipped,
    ls = ls.take n ++ skipped ++ ls.drop (ls.length - n) ∧
      (ArePlaced (keep o w ls :: bs) i j → ArePlaced [firstLines n (keep o w ls)] i j ∧
        ArePlaced (lastLines n (keep o w ls) :: bs) (i + (ls.take n).length + skipped.length)
          (j + (ls.take n).length + skipped.length)) := by
  have hstart : n + (ls.length - n - n) = ls.length - n := by omega
  have hend : ls.drop (ls.length - n) = (ls.drop n).drop (ls.length - n - n) := by rw [List.drop_drop, hstart]
  have hlength : (ls.take n).length = n := List.length_take_of_le (by omega)
  have hskipped : ((ls.drop n).take (ls.length - n - n)).length = ls.length - n - n :=
    List.length_take_of_le (by rw [List.length_drop]; omega)
  refine ⟨(ls.drop n).take (ls.length - n - n), ?_, fun h => ⟨⟨h.1, trivial⟩, ?_⟩⟩
  · rw [hend, List.append_assoc, List.take_append_drop, List.take_append_drop]
  · rw [hlength, hskipped, Nat.add_assoc, Nat.add_assoc, hstart]
    exact arePlaced_keep_drop (Nat.sub_le ..) h

theorem onLast_append (f : Block → Block) (bs : List Block) (b : Block) : onLast f (bs ++ [b]) = bs ++ [f b] := by
  simp [onLast, onHead]

theorem startsIn_onLast (n : Nat) (h : StartsIn bs p) : StartsIn (onLast (firstLines n) bs) p := by
  rcases List.eq_nil_or_concat' bs with rfl | ⟨front, last, rfl⟩
  · exact h
  · rw [onLast_append]
    cases front with
    | nil => simpa [StartsIn] using h
    | cons b front => simpa [StartsIn] using h

/-- The blocks without the kept lines `gap` and `tail` at their ends. They start and end with kept lines
where some were taken away. -/
structure Trims (bs cs : List Block) (gap tail : List Line) : Prop where
  oldSide : oldSide bs = gap ++ oldSide cs ++ tail
  newSide : newSide bs = gap ++ newSide cs ++ tail
  arePlaced : ∀ i j, ArePlaced bs i j → ArePlaced cs (i + gap.length) (j + gap.length)
  starts : StartsIn cs (gap = [])
  ends : EndsIn cs (tail = [])

theorem exists_trims_onHead (n : Nat) (bs : List Block) : ∃ gap, Trims bs (onHead (lastLines n) bs) gap [] := by
  match bs with
  | [] => exact ⟨[], by simp [onHead], by simp [onHead], fun _ _ h => h, fun _ _ => .inr rfl, fun _ _ => .inr rfl⟩
  | change o w removed added :: rest =>
      exact ⟨[], by simp [onHead, lastLines], by simp [onHead, lastLines], fun _ _ h => h, fun _ _ => .inr rfl,
        fun _ _ => .inr rfl⟩
  | keep o w ls :: rest =>
      have hlength : (ls.take (ls.length - n)).length = ls.length - n := List.length_take_of_le (Nat.sub_le ..)
      refine ⟨ls.take (ls.length - n), ?_, ?_, fun i j h => ?_, ?_, fun _ _ => .inr rfl⟩
      · simp [onHead, lastLines, oldLines, ← List.append_assoc]
      · simp [onHead, lastLines, newLines, ← List.append_assoc]
      · rw [hlength]
        exact arePlaced_keep_drop (Nat.sub_le ..) h
      · exact startsIn_cons (by trivial) rest

theorem exists_trims_onLast (n : Nat) (bs : List Block) : ∃ tail, Trims bs (onLast (firstLines n) bs) [] tail := by
  rcases List.eq_nil_or_concat' bs with rfl | ⟨front, last, rfl⟩
  · exact ⟨[], by simp [onLast, onHead], by simp [onLast, onHead], fun _ _ h => h, fun _ _ => .inr rfl,
      fun _ _ => .inr rfl⟩
  rw [onLast_append]
  match last with
  | change o w removed added =>
      exact ⟨[], by simp [firstLines], by simp [firstLines], fun _ _ h => h, fun _ _ => .inr rfl, fun _ _ => .inr rfl⟩
  | keep o w ls =>
      refine ⟨ls.drop n, ?_, ?_, fun i j h => ?_, fun _ _ => .inr rfl, ?_⟩
      · simp [firstLines, oldLines]
      · simp [firstLines, newLines]
      · rw [arePlaced_append] at h ⊢
        exact ⟨h.1, h.2.1, trivial⟩
      · exact endsIn_append_singleton (by trivial) front

theorem exists_trims (radius : Nat) (bs : List Block) : ∃ gap tail, Trims bs (trimEnds radius bs) gap tail := by
  obtain ⟨gap, h⟩ := exists_trims_onHead radius bs
  obtain ⟨tail, h'⟩ := exists_trims_onLast radius (onHead (lastLines radius) bs)
  refine ⟨gap, tail, ?_, ?_, fun i j hbs => h'.arePlaced _ _ (h.arePlaced i j hbs), startsIn_onLast _ h.starts, h'.ends⟩
  · simpa [trimEnds, h'.oldSide] using h.oldSide
  · simpa [trimEnds, h'.newSide] using h.newSide

end Trim

section Reverse

variable {bs : List Block} {p q : Prop}

def reverse : Block → Block
  | keep o w ls => keep w o ls
  | change o w removed added => change w o added removed

section

variable (b : Block)

@[simp] theorem oldLines_reverse : b.reverse.oldLines = b.newLines := by cases b <;> rfl

@[simp] theorem newLines_reverse : b.reverse.newLines = b.oldLines := by cases b <;> rfl

@[simp] theorem oldStart_reverse : b.reverse.oldStart = b.newStart := by cases b <;> rfl

@[simp] theorem newStart_reverse : b.reverse.newStart = b.oldStart := by cases b <;> rfl

@[simp] theorem oldEnd_reverse : b.reverse.oldEnd = b.newEnd := by cases b <;> rfl

@[simp] theorem newEnd_reverse : b.reverse.newEnd = b.oldEnd := by cases b <;> rfl

@[simp] theorem isKeep_reverse : b.reverse.IsKeep ↔ b.IsKeep := by cases b <;> rfl

end

theorem arePlaced_reverse (h : ArePlaced bs i j) : ArePlaced (bs.map reverse) j i := by
  induction bs generalizing i j with
  | nil => trivial
  | cons b bs ih =>
      refine ⟨?_, ?_⟩
      · cases b <;> exact h.1.symm
      · rw [oldLines_reverse, newLines_reverse]
        exact ih h.2

theorem startsIn_reverse (h : StartsIn bs p) : StartsIn (bs.map reverse) p := by
  intro b hb
  rw [List.head?_map, Option.mem_def, Option.map_eq_some_iff] at hb
  obtain ⟨b, hb, rfl⟩ := hb
  simpa using h b hb

theorem endsIn_reverse (h : EndsIn bs p) : EndsIn (bs.map reverse) p := by
  intro b hb
  rw [List.getLast?_map, Option.mem_def, Option.map_eq_some_iff] at hb
  obtain ⟨b, hb, rfl⟩ := hb
  simpa using h b hb

end Reverse

end Inlay.Diff.Block
