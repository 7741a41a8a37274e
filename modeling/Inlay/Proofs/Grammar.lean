import Inlay.Proofs.Printed
import Inlay.Proofs.Scan

namespace Inlay.Json

def IsBlanks (bs : Bytes) : Prop := ∀ b ∈ bs, isBlank b

/-! ### Strings and numbers -/

inductive Unit16.Written : Unit16 → Bytes → Prop
  | byte {b : UInt8} (hquote : b ≠ 0x22) (hslash : b ≠ 0x5C) (hcontrol : ¬b < 0x20) : Written (.byte b) [b]
  | short {e b : UInt8} (h : shortEscape? e = some b) : Written (.byte b) [0x5C, e]
  | hex {h₁ h₂ h₃ h₄ : UInt8} {n : Nat} (h : hexUnit? h₁ h₂ h₃ h₄ = some n) :
      Written (.escaped n) [0x5C, 0x75, h₁, h₂, h₃, h₄]

inductive Quoted.Written : Quoted → Bytes → Prop
  | close : Written ⟨[], .closed⟩ [0x22]
  | push {u : Unit16} {q : Quoted} {us bs : Bytes} (hu : u.Written us) (h : Written q bs) :
      Written ⟨u :: q.units, q.ending⟩ (us ++ bs)

def WrittenDigits (ds : List Nat) (bs : Bytes) : Prop := bs ≠ [] ∧ (∀ b ∈ bs, isDigit b) ∧ bs.map digitValue = ds

inductive WrittenFraction : Bool → List Nat → Bytes → Prop
  | absent : WrittenFraction false [] []
  | present {ds : List Nat} {bs : Bytes} (h : WrittenDigits ds bs) : WrittenFraction true ds (0x2E :: bs)

inductive WrittenExponent : Option (Bool × List Nat) → Bytes → Prop
  | absent : WrittenExponent none []
  | unsigned {e : UInt8} {ds : List Nat} {bs : Bytes} (he : e = 0x65 ∨ e = 0x45) (h : WrittenDigits ds bs) :
      WrittenExponent (some (false, ds)) (e :: bs)
  | plus {e : UInt8} {ds : List Nat} {bs : Bytes} (he : e = 0x65 ∨ e = 0x45) (h : WrittenDigits ds bs) :
      WrittenExponent (some (false, ds)) (e :: 0x2B :: bs)
  | minus {e : UInt8} {ds : List Nat} {bs : Bytes} (he : e = 0x65 ∨ e = 0x45) (h : WrittenDigits ds bs) :
      WrittenExponent (some (true, ds)) (e :: 0x2D :: bs)

def sign (negative : Bool) : Bytes := if negative then [0x2D] else []

structure Numeral.Written (n : Numeral) (bs : Bytes) : Prop where
  noLeadingZero : ¬(n.whole.head? = some 0 ∧ 1 < n.whole.length)
  written : ∃ whole fraction exponent, WrittenDigits n.whole whole ∧
    WrittenFraction n.hasFraction n.fraction fraction ∧ WrittenExponent n.exponent exponent ∧
    bs = sign n.negative ++ (whole ++ (fraction ++ exponent))

/-! ### Values -/

/-- What stands before an item or a member: a comma, unless it is the first. -/
inductive Separates : (first : Bool) → Bytes → Prop
  | first {pad : Bytes} (hpad : IsBlanks pad) : Separates true pad
  | comma {pad pad' : Bytes} (hpad : IsBlanks pad) (hpad' : IsBlanks pad') : Separates false (pad ++ 0x2C :: pad')

mutual

inductive Node.Written : Node → Bytes → Prop
  | null : Node.Written .null [0x6E, 0x75, 0x6C, 0x6C]
  | bool (b : Bool) : Node.Written (.bool b) (if b then [0x74, 0x72, 0x75, 0x65] else [0x66, 0x61, 0x6C, 0x73, 0x65])
  | number {n : Numeral} {bs : Bytes} (h : n.Written bs) : Node.Written (.number n) bs
  | string {q : Quoted} {bs : Bytes} (h : q.Written bs) : Node.Written (.string q) (0x22 :: bs)
  | array {is : Items} {bs : Bytes} (h : Items.Written is true bs) : Node.Written (.array is) (0x5B :: bs)
  | object {ms : Members} {bs : Bytes} (h : Members.Written ms true bs) : Node.Written (.object ms) (0x7B :: bs)

inductive Items.Written : Items → (first : Bool) → Bytes → Prop
  | close {first : Bool} {pad : Bytes} (hpad : IsBlanks pad) : Items.Written .closed first (pad ++ [0x5D])
  | cons {first : Bool} {head : Node} {tail : Items} {sep bs ts : Bytes} (hsep : Separates first sep)
      (hhead : Node.Written head bs) (htail : Items.Written tail false ts) :
      Items.Written (.cons head tail) first (sep ++ (bs ++ ts))

inductive Members.Written : Members → (first : Bool) → Bytes → Prop
  | close {first : Bool} {pad : Bytes} (hpad : IsBlanks pad) : Members.Written .closed first (pad ++ [0x7D])
  | cons {first : Bool} {key : Quoted} {value : Node} {tail : Members} {sep ks pad pad' bs ts : Bytes}
      (hsep : Separates first sep) (hkey : key.Written ks) (hpad : IsBlanks pad) (hpad' : IsBlanks pad')
      (hvalue : Node.Written value bs) (htail : Members.Written tail false ts) :
      Members.Written (.cons key value tail) first (sep ++ 0x22 :: (ks ++ (pad ++ 0x3A :: (pad' ++ (bs ++ ts)))))

end

def IsTextOf (text : Bytes) (n : Node) : Prop :=
  ∃ pad bs pad', text = pad ++ (bs ++ pad') ∧ IsBlanks pad ∧ n.Written bs ∧ IsBlanks pad'

/-! ### What is written is read -/

variable {bs rest pad : Bytes} {fuel : Nat}

theorem skipBlank_append (hpad : IsBlanks pad) (rest : Bytes) : skipBlank (pad ++ rest) = skipBlank rest :=
  List.dropWhile_append_of_pos hpad

theorem quoted_push {u : Unit16} (h : u.Written bs) (rest : Bytes) :
    quoted (bs ++ rest) = Quoted.push u (quoted rest) := by
  cases h with
  | byte hquote hslash hcontrol => exact quoted_byte hquote hslash hcontrol rest
  | @short e b h =>
      have hunit : e ≠ 0x75 := by
        rintro rfl
        cases h
      exact quoted_short h hunit rest
  | hex h => exact quoted_unit h rest

theorem Quoted.Written.quoted_append {q : Quoted} (h : q.Written bs) (rest : Bytes) :
    quoted (bs ++ rest) = (q, rest) := by
  induction h with
  | close => exact quoted_end rest
  | push hu _ ih =>
      rw [List.append_assoc, quoted_push hu, ih]
      rfl

def Stops (rest : Bytes) : Prop := ∀ b ∈ rest.head?, isDigit b = false ∧ b ≠ 0x2E ∧ b ≠ 0x65 ∧ b ≠ 0x45

theorem Stops.nil : Stops [] := nofun

theorem Stops.cons {b : UInt8} (h : isDigit b = false ∧ b ≠ 0x2E ∧ b ≠ 0x65 ∧ b ≠ 0x45) (bs : Bytes) :
    Stops (b :: bs) := by
  intro c hc
  cases hc
  exact h

theorem Stops.of_isBlanks (hpad : IsBlanks pad) (hrest : Stops rest) : Stops (pad ++ rest) := by
  cases pad with
  | nil => exact hrest
  | cons b pad =>
      refine .cons ?_ _
      have hb := hpad b List.mem_cons_self
      simp only [isBlank, Bool.or_eq_true, beq_iff_eq] at hb
      obtain ((rfl | rfl) | rfl) | rfl := hb <;> decide

theorem WrittenDigits.digits_append {ds : List Nat} (h : WrittenDigits ds bs)
    (hrest : ∀ b ∈ rest.head?, isDigit b = false) : digits (bs ++ rest) = .ok (ds, rest) := by
  obtain ⟨hne, hdigits, rfl⟩ := h
  rw [digits, takeWhile_append_of_head hdigits hrest, dropWhile_append_of_head hdigits hrest]
  simp [hne]

theorem WrittenFraction.fractionPart_append {hasFraction : Bool} {ds : List Nat} (h : WrittenFraction hasFraction ds bs)
    (hrest : ∀ b ∈ rest.head?, isDigit b = false ∧ b ≠ 0x2E) :
    fractionPart (bs ++ rest) = .ok (hasFraction, ds, rest) := by
  cases h with
  | absent =>
      cases rest with
      | nil => rfl
      | cons b rest =>
          obtain ⟨-, hb⟩ := hrest b rfl
          unfold fractionPart
          simp [hb]
  | present h =>
      unfold fractionPart
      simp only [List.cons_append]
      rw [h.digits_append fun b hb => (hrest b hb).1]
      rfl

theorem WrittenExponent.exponentPart_append {exponent : Option (Bool × List Nat)} (h : WrittenExponent exponent bs)
    (hrest : Stops rest) : exponentPart (bs ++ rest) = .ok (exponent, rest) := by
  have hdigits {ds : List Nat} {bs : Bytes} (h : WrittenDigits ds bs) : digits (bs ++ rest) = .ok (ds, rest) :=
    h.digits_append fun b hb => (hrest b hb).1
  cases h with
  | absent =>
      cases rest with
      | nil => rfl
      | cons b rest =>
          obtain ⟨-, -, hsmall, hcapital⟩ := hrest b rfl
          simp [exponentPart, hsmall, hcapital]
  | @unsigned e ds bs he h =>
      have hmark : (e == 0x65 || e == 0x45) = true := by simpa using he
      obtain ⟨b, bs, rfl⟩ := List.exists_cons_of_ne_nil h.1
      have hb := h.2.1 b List.mem_cons_self
      have hminus : b ≠ 0x2D := by
        rintro rfl
        cases hb
      have hplus : b ≠ 0x2B := by
        rintro rfl
        cases hb
      have hread := hdigits h
      simp only [List.cons_append] at hread
      simp [exponentPart, hmark, hminus, hplus, hread, bind, Except.bind]
  | @plus e ds bs he h | @minus e ds bs he h =>
      have hmark : (e == 0x65 || e == 0x45) = true := by simpa using he
      simp [exponentPart, hmark, hdigits h, bind, Except.bind]

theorem WrittenExponent.head_append {exponent : Option (Bool × List Nat)} (h : WrittenExponent exponent bs)
    (hrest : Stops rest) : ∀ b ∈ (bs ++ rest).head?, isDigit b = false ∧ b ≠ 0x2E := by
  intro b hb
  cases h with
  | absent =>
      obtain ⟨hdigit, hpoint, -⟩ := hrest b hb
      exact ⟨hdigit, hpoint⟩
  | unsigned he | plus he | minus he =>
      cases hb
      obtain rfl | rfl := he <;> decide

theorem WrittenFraction.head_append {hasFraction : Bool} {ds : List Nat} (h : WrittenFraction hasFraction ds bs)
    (hrest : ∀ b ∈ rest.head?, isDigit b = false) : ∀ b ∈ (bs ++ rest).head?, isDigit b = false := by
  intro b hb
  cases h with
  | absent => exact hrest b hb
  | present h =>
      cases hb
      rfl

theorem WrittenDigits.head {ds : List Nat} (h : WrittenDigits ds bs) : ∃ b bs', bs = b :: bs' ∧ isDigit b := by
  obtain ⟨b, bs', rfl⟩ := List.exists_cons_of_ne_nil h.1
  exact ⟨b, bs', rfl, h.2.1 b List.mem_cons_self⟩

theorem Numeral.Written.numeral_append {n : Numeral} (h : n.Written bs) (hrest : Stops rest) :
    numeral (bs ++ rest) = .ok (n, rest) := by
  obtain ⟨hzero, whole, fraction, exponent, hwhole, hfraction, hexponent, rfl⟩ := h
  have hhead := hexponent.head_append hrest
  have hread₁ := hwhole.digits_append (hfraction.head_append fun b hb => (hhead b hb).1)
  have hread₂ := hfraction.fractionPart_append hhead
  have hread₃ := hexponent.exponentPart_append hrest
  simp only [List.append_assoc]
  obtain ⟨negative, _, _, _, _⟩ := n
  cases negative with
  | true =>
      change numeral (0x2D :: (whole ++ (fraction ++ (exponent ++ rest)))) = _
      simp only [numeral, hread₁, hread₂, hread₃, bind, Except.bind, if_neg hzero]
  | false =>
      obtain ⟨b, bs, rfl, hb⟩ := hwhole.head
      have hminus : b ≠ 0x2D := by
        rintro rfl
        cases hb
      change numeral (b :: (bs ++ (fraction ++ (exponent ++ rest)))) = _
      rw [List.cons_append] at hread₁
      simp [numeral, hminus, hread₁, hread₂, hread₃, bind, Except.bind, if_neg hzero]

def startsNumber (b : UInt8) : Bool := b == 0x2D || isDigit b

theorem Numeral.Written.head {n : Numeral} (h : n.Written bs) : ∃ b bs', bs = b :: bs' ∧ startsNumber b := by
  obtain ⟨-, whole, fraction, exponent, hwhole, -, -, rfl⟩ := h
  obtain ⟨b, bs, rfl, hb⟩ := hwhole.head
  cases n.negative with
  | true => exact ⟨_, _, rfl, rfl⟩
  | false => exact ⟨b, _, rfl, by simp [startsNumber, hb]⟩

theorem startsNumber_ne {b c : UInt8} (hb : startsNumber b) (hc : startsNumber c = false) : b ≠ c := by
  rintro rfl
  exact Bool.eq_false_iff.1 hc hb

theorem isBlank_of_startsNumber {b : UInt8} (hb : startsNumber b) : isBlank b = false := by
  simp [isBlank, startsNumber_ne hb (c := 0x20) rfl, startsNumber_ne hb (c := 0x0A) rfl,
    startsNumber_ne hb (c := 0x09) rfl, startsNumber_ne hb (c := 0x0D) rfl]

theorem Node.Written.head {n : Node} (h : n.Written bs) : ∃ b bs', bs = b :: bs' ∧ isBlank b = false ∧ b ≠ 0x5D := by
  cases h with
  | null => exact ⟨_, _, rfl, rfl, by decide⟩
  | bool b => cases b <;> exact ⟨_, _, rfl, rfl, by decide⟩
  | string | array | object => exact ⟨_, _, rfl, rfl, by decide⟩
  | number h =>
      obtain ⟨b, bs, rfl, hb⟩ := h.head
      exact ⟨b, bs, rfl, isBlank_of_startsNumber hb, startsNumber_ne hb rfl⟩

theorem Node.Written.length_pos {n : Node} (h : n.Written bs) : 0 < bs.length := by
  obtain ⟨b, bs, rfl, -⟩ := h.head
  exact Nat.succ_pos _

theorem Separates.stops {sep : Bytes} (h : Separates false sep) (rest : Bytes) : Stops (sep ++ rest) := by
  cases h with
  | comma hpad =>
      rw [List.append_assoc]
      exact .of_isBlanks hpad (.cons (by decide) _)

theorem Items.Written.stops {is : Items} (h : is.Written false bs) (rest : Bytes) : Stops (bs ++ rest) := by
  cases h with
  | close hpad =>
      rw [List.append_assoc]
      exact .of_isBlanks hpad (.cons (by decide) _)
  | cons hsep =>
      rw [List.append_assoc]
      exact hsep.stops _

theorem Members.Written.stops {ms : Members} (h : ms.Written false bs) (rest : Bytes) : Stops (bs ++ rest) := by
  cases h with
  | close hpad =>
      rw [List.append_assoc]
      exact .of_isBlanks hpad (.cons (by decide) _)
  | cons hsep =>
      rw [List.append_assoc]
      exact hsep.stops _

theorem Items.Written.length_pos {is : Items} {first : Bool} (h : is.Written first bs) : 0 < bs.length := by
  cases h with
  | close => simp
  | cons _ hhead =>
      have := hhead.length_pos
      simp only [List.length_append]
      omega

theorem Members.Written.length_pos {ms : Members} {first : Bool} (h : ms.Written first bs) : 0 < bs.length := by
  cases h with
  | close => simp
  | cons => simp

theorem word_append (value : Node) (expected rest : Bytes) : word value expected (expected ++ rest) = (value, rest) := by
  induction expected with
  | nil => rfl
  | cons e expected ih =>
      rw [List.cons_append, word, ih]
      exact if_pos (beq_self_eq_true e)

theorem node_blanks (hpad : IsBlanks pad) (fuel : Nat) (bytes : Bytes) : node fuel (pad ++ bytes) = node fuel bytes := by
  cases fuel with
  | zero => simp only [node]
  | succ fuel => rw [node, node, skipBlank_append hpad]

theorem items_blanks (hpad : IsBlanks pad) (fuel : Nat) (first : Bool) (bytes : Bytes) :
    items fuel first (pad ++ bytes) = items fuel first bytes := by
  cases fuel with
  | zero => simp only [items]
  | succ fuel => rw [items, items, skipBlank_append hpad]

theorem members_blanks (hpad : IsBlanks pad) (fuel : Nat) (first : Bool) (bytes : Bytes) :
    members fuel first (pad ++ bytes) = members fuel first bytes := by
  cases fuel with
  | zero => simp only [members]
  | succ fuel => rw [members, members, skipBlank_append hpad]

theorem Separates.items_append {first : Bool} {sep : Bytes} (hsep : Separates first sep) {n : Node} (hn : n.Written bs)
    (rest : Bytes) : items (fuel + 1) first (sep ++ (bs ++ rest)) = item fuel (bs ++ rest) := by
  obtain ⟨b, bs, rfl, hblank, hb⟩ := hn.head
  cases hsep with
  | first hpad =>
      rw [items_blanks hpad]
      exact items_first hblank hb
  | comma hpad hpad' =>
      rw [List.append_assoc, items_blanks hpad, List.cons_append, items, skipBlank_cons rfl]
      simp only [skipBlank_append hpad', List.cons_append, skipBlank_cons hblank]
      simp [hb]

theorem Separates.members_append {first : Bool} {sep : Bytes} (hsep : Separates first sep) (rest : Bytes) :
    members (fuel + 1) first (sep ++ 0x22 :: rest) = member fuel rest := by
  cases hsep with
  | first hpad =>
      rw [members_blanks hpad]
      exact members_first
  | comma hpad hpad' =>
      rw [List.append_assoc, members_blanks hpad, List.cons_append, members, skipBlank_cons rfl]
      simp only [skipBlank_append hpad', skipBlank_cons (show isBlank 0x22 = false from rfl)]
      rfl

mutual

theorem Node.Written.node_append {n : Node} {bs rest : Bytes} {fuel : Nat} (h : n.Written bs)
    (hfuel : 2 * bs.length ≤ fuel) (hrest : Stops rest) : node fuel (bs ++ rest) = (n, rest) := by
  have hpos := h.length_pos
  obtain ⟨fuel, rfl⟩ := Nat.exists_eq_add_one.2 (show 0 < fuel by omega)
  cases h with
  | null =>
      rw [node, List.cons_append, skipBlank_cons rfl]
      exact word_append .null [0x75, 0x6C, 0x6C] rest
  | bool b =>
      cases b with
      | true =>
          rw [if_pos rfl, node, List.cons_append, skipBlank_cons rfl]
          exact word_append (.bool true) [0x72, 0x75, 0x65] rest
      | false =>
          rw [if_neg nofun, node, List.cons_append, skipBlank_cons rfl]
          exact word_append (.bool false) [0x61, 0x6C, 0x73, 0x65] rest
  | number h =>
      have hread := h.numeral_append hrest
      obtain ⟨b, bs, rfl, hb⟩ := h.head
      rw [List.cons_append] at hread
      rw [node, List.cons_append, skipBlank_cons (isBlank_of_startsNumber hb)]
      simp only [beq_iff_eq, startsNumber_ne hb (c := 0x22) rfl, startsNumber_ne hb (c := 0x5B) rfl,
        startsNumber_ne hb (c := 0x7B) rfl, startsNumber_ne hb (c := 0x6E) rfl, startsNumber_ne hb (c := 0x74) rfl,
        startsNumber_ne hb (c := 0x66) rfl, if_false, hread]
      exact if_pos hb
  | string h =>
      rw [node, List.cons_append, skipBlank_cons rfl]
      simp [h.quoted_append]
  | @array is bs h =>
      rw [List.length_cons] at hfuel
      rw [node, List.cons_append, skipBlank_cons rfl]
      simp [h.items_append (show 2 * bs.length ≤ fuel by omega)]
  | @object ms bs h =>
      rw [List.length_cons] at hfuel
      rw [node, List.cons_append, skipBlank_cons rfl]
      simp [h.members_append (show 2 * bs.length ≤ fuel by omega)]

theorem Items.Written.items_append {is : Items} {first : Bool} {bs rest : Bytes} {fuel : Nat} (h : is.Written first bs)
    (hfuel : 2 * bs.length ≤ fuel) : items fuel first (bs ++ rest) = (is, rest) := by
  have hpos := h.length_pos
  obtain ⟨fuel, rfl⟩ := Nat.exists_eq_add_of_le' (show 2 ≤ fuel by omega)
  cases h with
  | close hpad =>
      rw [List.append_assoc, items_blanks hpad]
      exact items_close first
  | @cons _ head tail sep bs ts hsep hhead htail =>
      have hbs := hhead.length_pos
      have hts := htail.length_pos
      simp only [List.length_append] at hfuel
      rw [List.append_assoc, List.append_assoc, hsep.items_append hhead, item,
        hhead.node_append (show 2 * bs.length ≤ fuel by omega) (htail.stops rest)]
      simp only [htail.items_append (show 2 * ts.length ≤ fuel by omega)]

theorem Members.Written.members_append {ms : Members} {first : Bool} {bs rest : Bytes} {fuel : Nat}
    (h : ms.Written first bs) (hfuel : 2 * bs.length ≤ fuel) : members fuel first (bs ++ rest) = (ms, rest) := by
  have hpos := h.length_pos
  obtain ⟨fuel, rfl⟩ := Nat.exists_eq_add_of_le' (show 2 ≤ fuel by omega)
  cases h with
  | close hpad =>
      rw [List.append_assoc, members_blanks hpad]
      exact members_close first
  | @cons _ key value tail sep ks pad pad' bs ts hsep hkey hpad hpad' hvalue htail =>
      simp only [List.length_append, List.length_cons] at hfuel
      have hnode : node fuel (pad' ++ (bs ++ (ts ++ rest))) = (value, ts ++ rest) := by
        rw [node_blanks hpad']
        exact hvalue.node_append (by omega) (htail.stops rest)
      simp only [List.append_assoc, List.cons_append]
      rw [hsep.members_append, member, hkey.quoted_append]
      simp only [skipBlank_append hpad, skipBlank_cons (show isBlank 0x3A = false from rfl), hnode,
        htail.members_append (show 2 * ts.length ≤ fuel by omega)]

end

theorem skipBlank_blanks (hpad : IsBlanks pad) : skipBlank pad = [] := by
  rw [← List.append_nil pad, skipBlank_append hpad]
  rfl

theorem IsTextOf.parse {text : Bytes} {n : Node} (h : IsTextOf text n) : parse text = ⟨n, false⟩ := by
  obtain ⟨pad, bs, pad', rfl, hpad, hn, hpad'⟩ := h
  have hstops : Stops pad' := by
    have h := Stops.nil.of_isBlanks hpad'
    rwa [List.append_nil] at h
  have hread : node (fuelFor (pad ++ (bs ++ pad'))) (pad ++ (bs ++ pad')) = (n, pad') := by
    rw [node_blanks hpad]
    refine hn.node_append ?_ hstops
    simp only [fuelFor, List.length_append]
    omega
  rw [Json.parse, hread]
  simp [skipBlank_blanks hpad']

theorem IsTextOf.unique {text : Bytes} {n n' : Node} (h : IsTextOf text n) (h' : IsTextOf text n') : n = n' :=
  congrArg Document.root (h.parse.symm.trans h'.parse)

end Inlay.Json
