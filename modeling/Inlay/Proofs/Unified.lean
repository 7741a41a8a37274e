import Inlay.Proofs.Blocks
import Inlay.Proofs.Patch

namespace Inlay.Diff

theorem spans_script (old new : String) : Script.Spans (script old new) 0 0 (lines old) (lines new) :=
  (Script.spans_between 0 0 (lines old) (lines new)).refine (Script.refines_compact _)

namespace Patch

variable {i j : Nat} {bs : List Block} {atEnd : Prop}

def Part.ofBlock : Block → Part
  | .keep _ _ ls => .kept ls
  | .change _ _ removed added => .changed removed added

@[simp] theorem Part.text_ofBlock (b : Block) : (ofBlock b).text = b.text := by cases b <;> rfl

@[simp] theorem Part.oldLines_ofBlock (b : Block) : (ofBlock b).oldLines = b.oldLines := by cases b <;> rfl

@[simp] theorem Part.newLines_ofBlock (b : Block) : (ofBlock b).newLines = b.newLines := by cases b <;> rfl

theorem rangeText_eq (start stop : Nat) : rangeText start stop = Range.text ⟨start, stop - start⟩ := by
  unfold rangeText
  match hcount : stop - start with
  | 0 =>
      change toString start ++ "," ++ "0" = toString start ++ ",0"
      rw [String.append_assoc]
      rfl
  | 1 => rfl
  | count + 2 => simp [Range.text]

/-- The hunk of blocks in a row that `i` and `j` lines stand before. The ranges are those that the first and
the last block record. -/
def Hunk.ofBlocks (i j : Nat) (first : Block) (rest : List Block) : Hunk :=
  let last := (first :: rest).getLast nofun
  ⟨i, j, (first :: rest).map Part.ofBlock, ⟨first.oldStart, last.oldEnd - first.oldStart⟩,
    ⟨first.newStart, last.newEnd - first.newStart⟩⟩

namespace Hunk

variable {first : Block} {rest : List Block}

@[simp] theorem oldLines_ofBlocks : (ofBlocks i j first rest).oldLines = Block.oldSide (first :: rest) := by
  simp [oldLines, ofBlocks, Block.oldSide, List.flatMap_map]

@[simp] theorem newLines_ofBlocks : (ofBlocks i j first rest).newLines = Block.newSide (first :: rest) := by
  simp [newLines, ofBlocks, Block.newSide, List.flatMap_map]

theorem text_ofBlocks {h : Diff.Hunk} (hh : Diff.Hunk.ofBlocks? (first :: rest) = some h) (i j : Nat) :
    h.text = if String.join ((first :: rest).map Block.text) = "" then "" else (ofBlocks i j first rest).text := by
  have hlast : (first :: rest).getLast? = some ((first :: rest).getLast nofun) :=
    List.getLast?_eq_some_getLast (List.cons_ne_nil first rest)
  have hparts : Part.text ∘ Part.ofBlock = Block.text := funext Part.text_ofBlock
  simp only [Diff.Hunk.ofBlocks?, List.head?_cons, hlast, Option.some.injEq] at hh
  subst hh
  simp only [Diff.Hunk.text, String.isEmpty_iff, text, rangeText_eq, ofBlocks, List.map_map, hparts]

/-- The first block records how many old lines stand before it and the last one how many stand up to its
end, unless they remove nothing. -/
theorem statesOld_ofBlocks (hp : Block.ArePlaced (first :: rest) i j)
    (hs : Block.StartsIn (first :: rest) (i = 0 ∧ j = 0)) (he : Block.EndsIn (first :: rest) atEnd) :
    (ofBlocks i j first rest).StatesOld atEnd := by
  let last := (first :: rest).getLast nofun
  have hlast : (first :: rest).dropLast ++ [last] = first :: rest := List.dropLast_append_getLast _
  have hplast := hp
  rw [← hlast, Block.arePlaced_append] at hplast
  rcases Block.oldStart_eq hp.1 with hfirst | ⟨o, w, added, rfl⟩
  · rcases Block.oldStart_eq hplast.2.1 with hstart | ⟨o, w, added, hchange⟩
    · left
      have hlength := congrArg (fun bs => (Block.oldSide bs).length) hlast
      simp only [Block.oldSide_append, Block.oldSide_cons, Block.oldSide_nil, List.length_append,
        List.append_nil] at hlength
      rw [oldLines_ofBlocks, Block.oldSide_cons]
      simp only [ofBlocks, hfirst, Range.mk.injEq, true_and, List.length_append]
      change last.oldEnd - i = _
      rw [Block.oldEnd_eq, hstart]
      omega
    · right; right
      have hend := he last (by rw [← hlast]; simp)
      rw [hchange] at hend
      refine ⟨hend.resolve_left id, (first :: rest).dropLast.map Part.ofBlock, added, ?_⟩
      have hparts := congrArg (List.map Part.ofBlock) hlast
      rw [hchange, List.map_append] at hparts
      exact hparts.symm
  · right; left
    obtain ⟨hi, hj⟩ := (hs _ rfl).resolve_left id
    exact ⟨hi, hj, added, rest.map Part.ofBlock, rfl⟩

theorem reverse_ofBlocks :
    (ofBlocks i j first rest).reverse = ofBlocks j i first.reverse (rest.map Block.reverse) := by
  have hlast : (first.reverse :: rest.map Block.reverse).getLast nofun = ((first :: rest).getLast nofun).reverse :=
    List.getLast_map (l := first :: rest) nofun
  have hparts (b : Block) : (Part.ofBlock b).reverse = Part.ofBlock b.reverse := by cases b <;> rfl
  simp [ofBlocks, reverse, hlast, hparts]

theorem states_ofBlocks (hp : Block.ArePlaced (first :: rest) i j)
    (hs : Block.StartsIn (first :: rest) (i = 0 ∧ j = 0)) (he : Block.EndsIn (first :: rest) atEnd) :
    (ofBlocks i j first rest).States atEnd := by
  refine ⟨statesOld_ofBlocks hp hs he, ?_⟩
  rw [reverse_ofBlocks]
  exact statesOld_ofBlocks (Block.arePlaced_reverse hp) (Block.startsIn_reverse (hs.imp And.symm))
    (Block.endsIn_reverse he)

end Hunk

theorem eq_nil_of_join_lineText {sign : Char} {ls : List Line} (h : String.join (ls.map (lineText sign)) = "") :
    ls = [] := by
  cases ls with
  | nil => rfl
  | cons l ls => simp [lineText] at h

theorem eq_nil_of_join_text (h : String.join (bs.map Block.text) = "") :
    Block.oldSide bs = [] ∧ Block.newSide bs = [] := by
  induction bs with
  | nil => exact ⟨rfl, rfl⟩
  | cons b bs ih =>
      rw [List.map_cons, String.join_cons, String.append_eq_empty_iff] at h
      obtain ⟨hold, hnew⟩ := ih h.2
      cases b with
      | keep o w ls =>
          have hls := eq_nil_of_join_lineText h.1
          simp [hold, hnew, hls, Block.oldLines, Block.newLines]
      | change o w removed added =>
          obtain ⟨hremoved, hadded⟩ := String.append_eq_empty_iff.1 h.1
          have hremoved := eq_nil_of_join_lineText hremoved
          have hadded := eq_nil_of_join_lineText hadded
          simp [hold, hnew, hremoved, hadded, Block.oldLines, Block.newLines]

/-- The stretches of blocks print a patch that leads from `a` to `b`, which have `i` and `j` lines before them. -/
def Shows (groups : List (List Block)) (i j : Nat) (a b : List Line) : Prop :=
  ∃ patch, String.join ((groups.filterMap Diff.Hunk.ofBlocks?).map Diff.Hunk.text) = String.join (patch.map Hunk.text) ∧
    Leads i j patch a b

namespace Shows

variable {groups : List (List Block)} {a b : List Line}

theorem nil (i j : Nat) (ls : List Line) : Shows [] i j ls ls := ⟨[], rfl, .done i j ls⟩

theorem prepend (gap : List Line) (h : Shows groups (i + gap.length) (j + gap.length) a b) :
    Shows groups i j (gap ++ a) (gap ++ b) := by
  obtain ⟨patch, htext, hleads⟩ := h
  exact ⟨patch, htext, hleads.prepend gap⟩

theorem cons (hp : Block.ArePlaced bs i j) (hs : Block.StartsIn bs (i = 0 ∧ j = 0))
    (he : Block.EndsIn bs (a = [] ∧ b = []))
    (hrest : Shows groups (i + (Block.oldSide bs).length) (j + (Block.newSide bs).length) a b) :
    Shows (bs :: groups) i j (Block.oldSide bs ++ a) (Block.newSide bs ++ b) := by
  cases bs with
  | nil => exact hrest
  | cons first rest =>
      obtain ⟨patch, htext, hleads⟩ := hrest
      obtain ⟨h, hh⟩ : ∃ h, Diff.Hunk.ofBlocks? (first :: rest) = some h :=
        ⟨_, by rw [Diff.Hunk.ofBlocks?, List.getLast?_eq_some_getLast (List.cons_ne_nil first rest)]; rfl⟩
      have hprinted : String.join (((first :: rest) :: groups).filterMap Diff.Hunk.ofBlocks? |>.map Diff.Hunk.text) =
          h.text ++ String.join (patch.map Hunk.text) := by
        rw [List.filterMap_cons_some hh, List.map_cons, String.join_cons, htext]
      rw [Hunk.text_ofBlocks hh i j] at hprinted
      split at hprinted
      · next hbody =>
          obtain ⟨hold, hnew⟩ := eq_nil_of_join_text hbody
          rw [String.empty_append] at hprinted
          exact ⟨patch, hprinted, by simpa [hold, hnew] using hleads⟩
      · refine ⟨.ofBlocks i j first rest :: patch, by rw [hprinted, List.map_cons, String.join_cons], ?_⟩
        rw [← Hunk.oldLines_ofBlocks (i := i) (j := j), ← Hunk.newLines_ofBlocks (i := i) (j := j)] at hleads ⊢
        exact .hunk [] rfl rfl (Hunk.states_ofBlocks hp hs he) hleads

end Shows

theorem shows_cut (radius : Nat) (current bs : List Block) (ls : List Line) (hp : Block.ArePlaced (current ++ bs) i j)
    (hs : Block.StartsIn (current ++ bs) (i = 0 ∧ j = 0)) (he : Block.EndsIn (current ++ bs) (ls = [])) :
    Shows (cut radius current bs) i j (Block.oldSide (current ++ bs) ++ ls) (Block.newSide (current ++ bs) ++ ls) := by
  fun_induction cut radius current bs generalizing i j with
  | case1 => exact .nil i j ls
  | case2 o w kept =>
      simpa [Block.oldLines, Block.newLines] using Shows.nil i j (kept ++ ls)
  | case3 current =>
      rw [List.append_nil] at hp hs he ⊢
      exact .cons hp hs (he.imp fun h => ⟨h, h⟩) (.nil _ _ ls)
  | case4 current bs o w kept hlong ih =>
      let first := Block.firstLines radius (.keep o w kept)
      let last := Block.lastLines radius (.keep o w kept)
      -- The one hunk ends with `first`, the next one starts with `last`, and none shows what is between them.
      obtain ⟨skipped, hkept, hplaced⟩ := Block.exists_skipped hlong
      have hsides (lines : Block → List Line) (hlines : ∀ o w ls, lines (.keep o w ls) = ls) :
          (current ++ .keep o w kept :: bs).flatMap lines ++ ls =
            (current ++ [first]).flatMap lines ++ (skipped ++ ((last :: bs).flatMap lines ++ ls)) := by
        simp only [List.flatMap_append, List.flatMap_cons, List.flatMap_nil, first, last, Block.firstLines,
          Block.lastLines, hlines]
        conv_lhs => rw [hkept]
        simp
      have hold : Block.oldSide (current ++ .keep o w kept :: bs) ++ ls =
          Block.oldSide (current ++ [first]) ++ (skipped ++ (Block.oldSide (last :: bs) ++ ls)) :=
        hsides Block.oldLines fun _ _ _ => rfl
      have hnew : Block.newSide (current ++ .keep o w kept :: bs) ++ ls =
          Block.newSide (current ++ [first]) ++ (skipped ++ (Block.newSide (last :: bs) ++ ls)) :=
        hsides Block.newLines fun _ _ _ => rfl
      rw [Block.arePlaced_append] at hp
      obtain ⟨hpfirst, hplast⟩ := hplaced hp.2
      have hpcurrent : Block.ArePlaced (current ++ [first]) i j := Block.arePlaced_append.2 ⟨hp.1, hpfirst⟩
      have hshows := ih hplast (Block.startsIn_cons (by trivial) bs) (he.of_append (by trivial))
      rw [hold, hnew]
      refine .cons hpcurrent (hs.of_append (by trivial)) (Block.endsIn_append_singleton (by trivial) current)
        (.prepend skipped ?_)
      simpa [first, Block.firstLines, Block.oldLines, Block.newLines, Nat.add_assoc] using hshows
  | case5 current bs o w kept _ ih => simpa using ih (by simpa using hp) (by simpa using hs) (by simpa using he)
  | case6 current bs o w removed added ih => simpa using ih (by simpa using hp) (by simpa using hs) (by simpa using he)

theorem shows_script (radius : Nat) (old new : String) :
    Shows (cut radius [] (trimEnds radius (blocks (script old new)))) 0 0 (lines old) (lines new) := by
  have hspans := spans_script old new
  have hreads := Block.reads_blocks (script old new)
  obtain ⟨gap, tail, htrims⟩ := Block.exists_trims radius (blocks (script old new))
  have hold := htrims.oldSide
  have hnew := htrims.newSide
  rw [hreads.oldSide, hspans.oldSide, List.append_assoc] at hold
  rw [hreads.newSide, hspans.newSide, List.append_assoc] at hnew
  rw [hold, hnew]
  refine .prepend gap (shows_cut radius [] _ tail ?_ ?_ htrims.ends)
  · exact htrims.arePlaced 0 0 (hreads.arePlaced 0 0 hspans.isPlaced)
  · exact htrims.starts.imp fun hgap => by simp [hgap]

theorem Hunk.text_ne_empty (h : Hunk) : h.text ≠ "" := by
  simp [Hunk.text]

theorem join_text_eq_empty {patch : List Hunk} (h : String.join (patch.map Hunk.text) = "") : patch = [] := by
  cases patch with
  | nil => rfl
  | cons g gs =>
      rw [List.map_cons, String.join_cons, String.append_eq_empty_iff] at h
      exact absurd h.1 g.text_ne_empty

end Patch

theorem join_lines (text : String) : String.join (lines text) = text := by
  rw [← String.toList_inj, String.toList_join, lines, List.flatMap_map]
  simp only [String.toList_ofList]
  rw [List.flatMap_id', flatten_cutLines]

theorem isEnded_ofList {l : List Char} :
    isEnded (String.ofList l) ↔ ∃ c, l.getLast? = some c ∧ (c = '\n' ∨ c = '\r') := by
  rw [isEnded, String.toList_ofList]
  cases l.getLast? <;> simp

theorem hunks_run_keep (radius i j : Nat) (a : List Line) : hunks radius (run .keep i j a) = [] := by
  cases a with
  | nil => simp [hunks, run, blocks, trimEnds, onLast, onHead, cut]
  | cons x xs =>
      have hshort (ls : List Line) : ¬ 2 * radius < (ls.take radius).length := by
        rw [List.length_take]
        omega
      simp [hunks, run, blocks, trimEnds, onLast, onHead, Block.firstLines, Block.lastLines, cut, -List.length_take,
        -List.length_drop, hshort]

theorem hunks_self (radius : Nat) (text : String) : hunks radius (script text text) = [] := by
  rw [script, Script.between_self, Script.compact_run_keep, hunks_run_keep]

end Inlay.Diff

namespace Inlay

open Diff Diff.Patch

/-- The diff of two texts is empty if and only if they are equal. It prints a patch that turns the one text into
the other and back. The hunks come in order, and they state their ranges with the exceptions of `Hunk.StatesOld`. -/
theorem diff_is_patch (p : Presenter) (old new : String) :
    (p.diff old new = "" ↔ old = new) ∧ ∃ patch : List Patch.Hunk,
      (patch = [] ↔ old = new) ∧
      p.diff old new = (if patch = [] then "" else
        "--- " ++ p.oldLabel ++ "\n+++ " ++ p.newLabel ++ "\n" ++ String.join (patch.map Patch.Hunk.text)) ∧
      patch.Pairwise Patch.Hunk.Precedes ∧
      (apply 0 patch (lines old)).map String.join = some new ∧
      (apply 0 (patch.map Patch.Hunk.reverse) (lines new)).map String.join = some old ∧
      ∀ h ∈ patch, h.States (h.EndsAt (lines old).length (lines new).length) := by
  obtain ⟨patch, htext, hleads⟩ := shows_script p.contextRadius old new
  have hnone : hunks p.contextRadius (script old new) = [] → patch = [] := by
    intro hnone
    rw [← hunks, hnone] at htext
    exact join_text_eq_empty htext.symm
  have hpatch : patch = [] ↔ old = new := by
    constructor
    · rintro rfl
      have hlines := congrArg String.join hleads.eq_of_nil
      rwa [join_lines, join_lines] at hlines
    · rintro rfl
      exact hnone (hunks_self p.contextRadius old)
  have hdiff : p.diff old new = (if patch = [] then "" else
      "--- " ++ p.oldLabel ++ "\n+++ " ++ p.newLabel ++ "\n" ++ String.join (patch.map Patch.Hunk.text)) := by
    by_cases hempty : patch = []
    · obtain rfl := hpatch.1 hempty
      rw [if_pos hempty, Presenter.diff, hunks_self]
    · rw [if_neg hempty, Presenter.diff]
      split
      · next hnone' => exact absurd (hnone hnone') hempty
      · exact congrArg _ htext
  refine ⟨?_, patch, hpatch, hdiff, hleads.pairwise, ?_, ?_, ?_⟩
  · rw [hdiff, ← hpatch]
    split
    · next hempty => simp [hempty]
    · next hne => simp [hne]
  · rw [hleads.apply_eq, Option.map_some, join_lines]
  · rw [hleads.reverse.apply_eq, Option.map_some, join_lines]
  · simpa using hleads.states

/-- A removal that an addition moved over still records the number of lines that stood before the addition.
In front of the kept line, the header puts it behind it, and the way back ends elsewhere. -/
theorem stale_number_misplaces :
    let patch : List Patch.Hunk :=
      [⟨0, 1, [.changed ["a\n"] []], ⟨0, 1⟩, ⟨1, 0⟩⟩, ⟨2, 1, [.changed [] ["b\n"]], ⟨2, 0⟩, ⟨1, 1⟩⟩]
    ({} : Presenter).diff "a\nb\n" "b\nb\n" =
        "--- Original\n+++ Transpiled\n" ++ String.join (patch.map Patch.Hunk.text) ∧
      (∀ h ∈ patch, h.old = ⟨h.oldBefore, h.oldLines.length⟩ ∧ h.new = ⟨h.newBefore, h.newLines.length⟩) ∧
      (apply 0 (patch.map Patch.Hunk.reverse) (lines "b\nb\n")).map String.join = some "b\na\n" := by
  refine ⟨?_, ?_, ?_⟩
  · decide +kernel
  · decide
  · decide +kernel

end Inlay
