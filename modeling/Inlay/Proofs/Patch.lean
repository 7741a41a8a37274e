import Inlay.Diff.Unified

namespace Inlay.Diff

namespace Patch

inductive Part
  | kept (lines : List Line)
  | changed (removed added : List Line)
  deriving DecidableEq, Repr

namespace Part

def oldLines : Part → List Line
  | kept ls => ls
  | changed removed _ => removed

def newLines : Part → List Line
  | kept ls => ls
  | changed _ added => added

def reverse : Part → Part
  | kept ls => kept ls
  | changed removed added => changed added removed

@[simp] theorem reverse_reverse (p : Part) : p.reverse.reverse = p := by cases p <;> rfl

@[simp] theorem oldLines_reverse (p : Part) : p.reverse.oldLines = p.newLines := by cases p <;> rfl

@[simp] theorem newLines_reverse (p : Part) : p.reverse.newLines = p.oldLines := by cases p <;> rfl

def text : Part → String
  | kept ls => String.join (ls.map (lineText ' '))
  | changed removed added => String.join (removed.map (lineText '-')) ++ String.join (added.map (lineText '+'))

end Part

/-- How many lines stand before the range, and how many are in it. -/
structure Range where
  before : Nat
  count : Nat
  deriving DecidableEq, Repr

/-- A range is numbered by its first line, an empty one by the line before it. The length is left out
where it is one. -/
def Range.text : Range → String
  | ⟨before, 0⟩ => toString before ++ ",0"
  | ⟨before, 1⟩ => toString (before + 1)
  | ⟨before, count⟩ => toString (before + 1) ++ "," ++ toString count

/-- The parts of a hunk with the numbers of lines before it on either side, and the ranges that its
header states. -/
structure Hunk where
  oldBefore : Nat
  newBefore : Nat
  parts : List Part
  old : Range
  new : Range
  deriving DecidableEq, Repr

namespace Hunk

def oldLines (h : Hunk) : List Line := h.parts.flatMap Part.oldLines

def newLines (h : Hunk) : List Line := h.parts.flatMap Part.newLines

def text (h : Hunk) : String :=
  "@@ -" ++ h.old.text ++ " +" ++ h.new.text ++ " @@\n" ++ String.join (h.parts.map Part.text)

def reverse (h : Hunk) : Hunk := ⟨h.newBefore, h.oldBefore, h.parts.map Part.reverse, h.new, h.old⟩

@[simp] theorem reverse_reverse (h : Hunk) : h.reverse.reverse = h := by
  have hparts : Part.reverse ∘ Part.reverse = id := funext Part.reverse_reverse
  simp [reverse, hparts]

@[simp] theorem oldLines_reverse (h : Hunk) : h.reverse.oldLines = h.newLines := by
  simp [oldLines, newLines, reverse, List.flatMap_map]

@[simp] theorem newLines_reverse (h : Hunk) : h.reverse.newLines = h.oldLines := by
  simp [oldLines, newLines, reverse, List.flatMap_map]

/-- The range of the old lines is the one that the header states. This may fail only where the text
starts with a change that removes nothing, or ends with one. -/
def StatesOld (h : Hunk) (atEnd : Prop) : Prop :=
  h.old = ⟨h.oldBefore, h.oldLines.length⟩ ∨
    (h.oldBefore = 0 ∧ h.newBefore = 0 ∧ ∃ added rest, h.parts = .changed [] added :: rest) ∨
    (atEnd ∧ ∃ front added, h.parts = front ++ [.changed [] added])

def States (h : Hunk) (atEnd : Prop) : Prop := h.StatesOld atEnd ∧ h.reverse.StatesOld atEnd

theorem StatesOld.imp {h : Hunk} {p q : Prop} (hh : h.StatesOld p) (hpq : p → q) : h.StatesOld q :=
  Or.imp_right (Or.imp_right (And.imp_left hpq)) hh

theorem States.imp {h : Hunk} {p q : Prop} (hh : h.States p) (hpq : p → q) : h.States q :=
  ⟨hh.1.imp hpq, hh.2.imp hpq⟩

def EndsAt (h : Hunk) (oldCount newCount : Nat) : Prop :=
  h.oldBefore + h.oldLines.length = oldCount ∧ h.newBefore + h.newLines.length = newCount

def Precedes (h k : Hunk) : Prop :=
  h.oldBefore + h.oldLines.length ≤ k.oldBefore ∧ h.newBefore + h.newLines.length ≤ k.newBefore

end Hunk

/-- Applies hunks to lines that `before` lines stand before. The lines of a hunk have to be found where
it belongs. -/
def apply (before : Nat) : List Hunk → List Line → Option (List Line)
  | [], ls => some ls
  | h :: hs, ls =>
    let gap := h.oldBefore - before
    if before ≤ h.oldBefore ∧ gap ≤ ls.length ∧ h.oldLines <+: ls.drop gap then
      (apply (h.oldBefore + h.oldLines.length) hs (ls.drop (gap + h.oldLines.length))).map
        fun rest => ls.take gap ++ h.newLines ++ rest
    else none

/-- The hunks lead from the one list to the other. Lines stand before, between and after them that both
lists have. -/
inductive Leads : Nat → Nat → List Hunk → List Line → List Line → Prop
  | done (i j : Nat) (kept : List Line) : Leads i j [] kept kept
  | hunk {i j : Nat} {h : Hunk} {hs : List Hunk} {a b : List Line} (gap : List Line)
      (hold : h.oldBefore = i + gap.length) (hnew : h.newBefore = j + gap.length) (hstates : h.States (a = [] ∧ b = []))
      (hrest : Leads (h.oldBefore + h.oldLines.length) (h.newBefore + h.newLines.length) hs a b) :
      Leads i j (h :: hs) (gap ++ h.oldLines ++ a) (gap ++ h.newLines ++ b)

namespace Leads

variable {i j : Nat} {hs : List Hunk} {a b : List Line}

theorem apply_eq (h : Leads i j hs a b) : apply i hs a = some b := by
  induction h with
  | done => rfl
  | @hunk i j h hs a b gap hold _ _ _ ih =>
      have hgap : h.oldBefore - i = gap.length := by omega
      have hdrop : (gap ++ h.oldLines ++ a).drop gap.length = h.oldLines ++ a := by simp
      have hdrop' : (gap ++ h.oldLines ++ a).drop (gap.length + h.oldLines.length) = a := by
        rw [← List.length_append, List.drop_left]
      have htake : (gap ++ h.oldLines ++ a).take gap.length = gap := by simp
      rw [apply]
      simp only [hgap, hdrop, hdrop', htake, ih]
      rw [if_pos ⟨by omega, by simp only [List.length_append]; omega, List.prefix_append _ _⟩]
      rfl

theorem reverse (h : Leads i j hs a b) : Leads j i (hs.map Hunk.reverse) b a := by
  induction h with
  | done i j kept => exact .done j i kept
  | @hunk i j h hs a b gap hold hnew hstates _ ih =>
      have hstates' : h.reverse.States (b = [] ∧ a = []) := by
        rw [Hunk.States, Hunk.reverse_reverse, and_comm (a := b = [])]
        exact hstates.symm
      have hrest : Leads (h.reverse.oldBefore + h.reverse.oldLines.length)
          (h.reverse.newBefore + h.reverse.newLines.length) (hs.map Hunk.reverse) b a := by
        rwa [Hunk.oldLines_reverse, Hunk.newLines_reverse]
      have hhunk := Leads.hunk gap (h := h.reverse) (i := j) (j := i) hnew hold hstates' hrest
      rwa [Hunk.oldLines_reverse, Hunk.newLines_reverse] at hhunk

theorem prepend {i j : Nat} (gap : List Line) (h : Leads (i + gap.length) (j + gap.length) hs a b) :
    Leads i j hs (gap ++ a) (gap ++ b) := by
  cases h with
  | done => exact .done i j _
  | @hunk _ _ h hs a b gap' hold hnew hstates hrest =>
      have hhunk := Leads.hunk (gap ++ gap') (i := i) (j := j)
        (by rw [hold, List.length_append, Nat.add_assoc]) (by rw [hnew, List.length_append, Nat.add_assoc])
        hstates hrest
      simpa only [List.append_assoc] using hhunk

theorem le_before (h : Leads i j hs a b) : ∀ g ∈ hs, i ≤ g.oldBefore ∧ j ≤ g.newBefore := by
  induction h with
  | done => exact fun _ hg => absurd hg List.not_mem_nil
  | @hunk i j h hs a b gap hold hnew _ _ ih =>
      intro g hg
      rcases List.mem_cons.1 hg with rfl | hg
      · omega
      · have := ih g hg
        omega

theorem pairwise (h : Leads i j hs a b) : hs.Pairwise Hunk.Precedes := by
  induction h with
  | done => exact .nil
  | hunk _ _ _ _ hrest ih => exact .cons hrest.le_before ih

theorem states (h : Leads i j hs a b) : ∀ g ∈ hs, g.States (g.EndsAt (i + a.length) (j + b.length)) := by
  induction h with
  | done => exact fun _ hg => absurd hg List.not_mem_nil
  | @hunk i j h hs a b gap hold hnew hstates _ ih =>
      intro g hg
      rcases List.mem_cons.1 hg with rfl | hg
      · refine hstates.imp ?_
        rintro ⟨rfl, rfl⟩
        simp only [Hunk.EndsAt, List.length_append, List.length_nil]
        omega
      · refine (ih g hg).imp ?_
        simp only [Hunk.EndsAt, List.length_append]
        omega

theorem eq_of_nil (h : Leads i j [] a b) : a = b := by
  cases h
  rfl

end Leads

end Patch

end Inlay.Diff
