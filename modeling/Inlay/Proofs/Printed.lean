import Inlay.Json.Print
import Inlay.Proofs.Utf8

namespace Inlay.Json

def bytes (cs : List Char) : Bytes := cs.flatMap String.utf8EncodeChar

@[simp] theorem bytes_nil : bytes [] = [] := rfl

@[simp] theorem bytes_append (as bs : List Char) : bytes (as ++ bs) = bytes as ++ bytes bs :=
  List.flatMap_append

theorem bytes_cons (c : Char) (cs : List Char) : bytes (c :: cs) = String.utf8EncodeChar c ++ bytes cs := rfl

/-! ### Strings -/

def isShort (c : Char) : Bool := c == '\x08' || c == '\x0C' || c == '\n' || c == '\r' || c == '\t'

def unitsOf (c : Char) : List Unit16 :=
  if c < ' ' ∧ isShort c = false then [.escaped c.toNat] else (String.utf8EncodeChar c).map .byte

def Quoted.ofString (s : String) : Quoted := ⟨s.toList.flatMap unitsOf, .closed⟩

theorem hexUnit?_control : ∀ n < 32,
    bytes [hexDigit (n / 16), hexDigit n] = [(hexDigit (n / 16)).toUInt8, (hexDigit n).toUInt8] ∧
      hexUnit? 0x30 0x30 (hexDigit (n / 16)).toUInt8 (hexDigit n).toUInt8 = some n := by
  decide

theorem quoted_byte {b : UInt8} (hquote : b ≠ 0x22) (hslash : b ≠ 0x5C) (hcontrol : ¬ b < 0x20) (rest : Bytes) :
    quoted (b :: rest) = Quoted.push (.byte b) (quoted rest) := by
  rw [quoted.eq_def]
  simp only [beq_iff_eq, hquote, hslash, hcontrol, if_false]

theorem quoted_bytes {bs : Bytes} (hbs : ∀ b ∈ bs, b ≠ 0x22 ∧ b ≠ 0x5C ∧ ¬ b < 0x20) (rest : Bytes) :
    quoted (bs ++ rest) = (bs.map Unit16.byte).foldr Quoted.push (quoted rest) := by
  induction bs with
  | nil => rfl
  | cons b bs ih =>
      obtain ⟨⟨hquote, hslash, hcontrol⟩, hbs⟩ := List.forall_mem_cons.1 hbs
      rw [List.cons_append, quoted_byte hquote hslash hcontrol, ih hbs]
      rfl

theorem mem_utf8EncodeChar {c : Char} {b : UInt8} (hquote : c ≠ '"') (hslash : c ≠ '\\') (hcontrol : ¬ c < ' ')
    (hb : b ∈ String.utf8EncodeChar c) : b ≠ 0x22 ∧ b ≠ 0x5C ∧ ¬ b < 0x20 := by
  have hquote : c.val.toNat ≠ 0x22 := fun h => hquote (Char.ext (UInt32.toNat_inj.1 h))
  have hslash : c.val.toNat ≠ 0x5C := fun h => hslash (Char.ext (UInt32.toNat_inj.1 h))
  have hcontrol : 0x20 ≤ c.val.toNat := Nat.le_of_not_lt hcontrol
  simp only [String.utf8EncodeChar] at hb
  generalize c.val.toNat = n at *
  simp only [ne_eq, ← UInt8.toNat_inj, UInt8.lt_iff_toNat_lt]
  split_ifs at hb <;>
    simp only [List.mem_cons, List.not_mem_nil, or_false] at hb <;>
    rcases hb with rfl | rfl | rfl | rfl <;>
    simp only [UInt8.toNat_ofNat', UInt8.reduceToNat, Nat.reducePow] <;> omega

theorem quoted_short {e b : UInt8} (he : shortEscape? e = some b) (hunit : e ≠ 0x75) (rest : Bytes) :
    quoted (0x5C :: e :: rest) = Quoted.push (.byte b) (quoted rest) := by
  rw [quoted.eq_def]
  simp [hunit, he]

theorem quoted_unit {n : Nat} {h₁ h₂ h₃ h₄ : UInt8} (hn : hexUnit? h₁ h₂ h₃ h₄ = some n) (rest : Bytes) :
    quoted (0x5C :: 0x75 :: h₁ :: h₂ :: h₃ :: h₄ :: rest) = Quoted.push (.escaped n) (quoted rest) := by
  rw [quoted.eq_def]
  simp [hn]

theorem quoted_escapeChar (c : Char) (rest : Bytes) :
    quoted (bytes (escapeChar c) ++ rest) = (unitsOf c).foldr Quoted.push (quoted rest) := by
  unfold escapeChar
  split_ifs
  -- the characters with an escape of two bytes
  any_goals subst c; exact quoted_short rfl (by decide) rest
  · next hcontrol =>
    have hunits : unitsOf c = [.escaped c.toNat] := if_pos ⟨hcontrol, by simp [isShort, *]⟩
    obtain ⟨hbytes, hhex⟩ := hexUnit?_control c.toNat hcontrol
    have hspelled : bytes ['\\', 'u', '0', '0', hexDigit (c.toNat / 16), hexDigit c.toNat] =
        [0x5C, 0x75, 0x30, 0x30] ++ bytes [hexDigit (c.toNat / 16), hexDigit c.toNat] := rfl
    rw [hspelled, hbytes, hunits]
    exact quoted_unit hhex rest
  · next hquote hslash _ _ _ _ _ hcontrol =>
    have hunits : unitsOf c = (String.utf8EncodeChar c).map .byte := if_neg fun h => hcontrol h.1
    have hplain : ∀ b ∈ String.utf8EncodeChar c, b ≠ 0x22 ∧ b ≠ 0x5C ∧ ¬ b < 0x20 := fun b hb =>
      mem_utf8EncodeChar hquote hslash hcontrol hb
    rw [hunits, bytes_cons, bytes_nil, List.append_nil]
    exact quoted_bytes hplain rest

theorem foldr_push (us : List Unit16) (q : Quoted) (rest : Bytes) :
    us.foldr Quoted.push (q, rest) = (⟨us ++ q.units, q.ending⟩, rest) := by
  induction us with
  | nil => rfl
  | cons u us ih =>
      rw [List.foldr_cons, ih]
      rfl

theorem quoted_end (rest : Bytes) : quoted (0x22 :: rest) = (⟨[], .closed⟩, rest) := by
  rw [quoted.eq_def]
  rfl

theorem quoted_stringText (s : String) (rest : Bytes) :
    quoted (bytes (s.toList.flatMap escapeChar) ++ 0x22 :: rest) = (.ofString s, rest) := by
  unfold Quoted.ofString
  induction s.toList with
  | nil => exact quoted_end rest
  | cons c cs ih =>
      rw [List.flatMap_cons, bytes_append, List.append_assoc, quoted_escapeChar, ih, foldr_push, List.flatMap_cons]

theorem bytesOf_bytes (bs : Bytes) (us : List Unit16) :
    Quoted.bytesOf .closed (bs.map .byte ++ us) = (Quoted.bytesOf .closed us).map (bs ++ ·) := by
  induction bs with
  | nil => cases h : Quoted.bytesOf .closed us <;> simp [h, Except.map]
  | cons b bs ih =>
      rw [List.map_cons, List.cons_append, Quoted.bytesOf.eq_def]
      simp only [ih]
      cases Quoted.bytesOf .closed us <;> rfl

theorem bytesOf_unitsOf (c : Char) (us : List Unit16) :
    Quoted.bytesOf .closed (unitsOf c ++ us) = (Quoted.bytesOf .closed us).map (String.utf8EncodeChar c ++ ·) := by
  unfold unitsOf
  split_ifs with h
  · have hlt : c.toNat < 32 := h.1
    have htrailing : Quoted.isTrailing c.toNat = false := by
      simp only [Quoted.isTrailing, Bool.and_eq_false_iff, decide_eq_false_iff_not]
      omega
    have hleading : Quoted.isLeading c.toNat = false := by
      simp only [Quoted.isLeading, Bool.and_eq_false_iff, decide_eq_false_iff_not]
      omega
    rw [List.singleton_append, Quoted.bytesOf.eq_def]
    simp [htrailing, hleading]
  · exact bytesOf_bytes _ us

theorem text_ofString (s : String) : (Quoted.ofString s).text = .ok s := by
  have hbytes (cs : List Char) : Quoted.bytesOf .closed (cs.flatMap unitsOf) = .ok (bytes cs) := by
    induction cs with
    | nil => rfl
    | cons c cs ih =>
        rw [List.flatMap_cons, bytesOf_unitsOf, ih]
        rfl
  rw [Quoted.text, Quoted.ofString, hbytes, bytes, ← Text.encode_eq_flatMap]
  simp only [Text.decode?_encode]

/-! ### Values -/

mutual

def Value.toNode : Value → Node
  | .null => .null
  | .bool b => .bool b
  | .number _ => .null
  | .string s => .string (.ofString s)
  | .array items => .array (toItems items)
  | .object members => .object (toMembers members)

def toItems : List Value → Items
  | [] => .closed
  | v :: vs => .cons v.toNode (toItems vs)

def toMembers : List (String × Value) → Members
  | [] => .closed
  | (k, v) :: ms => .cons (.ofString k) v.toNode (toMembers ms)

end

/-- The fuel is more than the value takes, and less than its whole text is given. -/
structure Value.ReadsBack (v : Value) : Prop where
  head : ∃ b bs, bytes v.text = b :: bs ∧ isBlank b = false ∧ b ≠ 0x5D
  read : ∀ fuel rest, 2 * (bytes v.text).length ≤ fuel → node fuel (bytes v.text ++ rest) = (v.toNode, rest)

variable {fuel : Nat} {rest tail : Bytes} {b : UInt8} {bs : Bytes} {v : Value} {vs : List Value}

theorem skipBlank_cons (hb : isBlank b = false) (bs : Bytes) : skipBlank (b :: bs) = b :: bs :=
  List.dropWhile_cons_of_neg (by simp [hb])

theorem Value.ReadsBack.of_cons (htext : bytes v.text = b :: bs) (hblank : isBlank b = false) (hb : b ≠ 0x5D)
    (hread : ∀ fuel rest, 2 * bs.length < fuel → node (fuel + 1) (b :: bs ++ rest) = (v.toNode, rest)) :
    v.ReadsBack := by
  refine ⟨⟨b, bs, htext, hblank, hb⟩, fun fuel rest hfuel => ?_⟩
  rw [htext, List.length_cons] at hfuel
  obtain ⟨fuel, rfl⟩ := Nat.exists_eq_add_of_lt (Nat.lt_of_lt_of_le (by omega : 0 < 2 * (bs.length + 1)) hfuel)
  rw [htext, Nat.zero_add]
  exact hread fuel rest (by omega)

theorem Value.ReadsBack.null : Value.null.ReadsBack := by
  apply of_cons (b := 0x6E) rfl rfl (by decide)
  intro fuel rest hfuel
  rw [node, List.cons_append, skipBlank_cons rfl]
  rfl

theorem Value.ReadsBack.bool (b : Bool) : (Value.bool b).ReadsBack := by
  cases b with
  | false =>
      apply of_cons (b := 0x66) rfl rfl (by decide)
      intro fuel rest hfuel
      rw [node, List.cons_append, skipBlank_cons rfl]
      rfl
  | true =>
      apply of_cons (b := 0x74) rfl rfl (by decide)
      intro fuel rest hfuel
      rw [node, List.cons_append, skipBlank_cons rfl]
      rfl

theorem bytes_stringText (s : String) :
    bytes (stringText s) = 0x22 :: (bytes (s.toList.flatMap escapeChar) ++ [0x22]) := by
  rw [stringText, List.cons_append, bytes_cons, bytes_append]
  rfl

theorem Value.ReadsBack.string (s : String) : (Value.string s).ReadsBack := by
  apply of_cons (v := .string s) (bytes_stringText s) rfl (by decide)
  intro fuel rest hfuel
  rw [node, List.cons_append, skipBlank_cons rfl, List.append_assoc]
  simp [quoted_stringText, toNode]

def itemsTail (vs : List Value) : List Char := vs.flatMap fun v => ',' :: v.text

theorem itemsText_cons (v : Value) (vs : List Value) : itemsText (v :: vs) = v.text ++ itemsTail vs := by
  unfold itemsTail
  induction vs generalizing v with
  | nil => simp [itemsText]
  | cons w vs ih => simp [itemsText, ih]

theorem bytes_itemsTail_cons (v : Value) (vs : List Value) :
    bytes (itemsTail (v :: vs)) = 0x2C :: (bytes v.text ++ bytes (itemsTail vs)) := by
  rw [itemsTail, List.flatMap_cons, List.cons_append, bytes_cons, bytes_append]
  rfl

theorem items_close (first : Bool) : items (fuel + 1) first (0x5D :: rest) = (.closed, rest) := by
  rw [items, skipBlank_cons rfl]
  rfl

theorem items_first (hblank : isBlank b = false) (hb : b ≠ 0x5D) :
    items (fuel + 1) true (b :: bs) = item fuel (b :: bs) := by
  rw [items, skipBlank_cons hblank]
  simp [hb]

theorem items_comma (hblank : isBlank b = false) (hb : b ≠ 0x5D) :
    items (fuel + 1) false (0x2C :: b :: bs) = item fuel (b :: bs) := by
  rw [items, skipBlank_cons rfl]
  simp [skipBlank_cons hblank, hb]

theorem item_append (hv : v.ReadsBack) (hfuel : 2 * (bytes v.text).length ≤ fuel)
    (htail : items fuel false tail = (toItems vs, rest)) :
    item (fuel + 1) (bytes v.text ++ tail) = (toItems (v :: vs), rest) := by
  rw [item, hv.read fuel tail hfuel]
  simp only [htail, toItems]

theorem items_itemsTail (hvs : ∀ v ∈ vs, v.ReadsBack) (hfuel : 2 * (bytes (itemsTail vs)).length < fuel) :
    items fuel false (bytes (itemsTail vs) ++ 0x5D :: rest) = (toItems vs, rest) := by
  -- an item takes two steps besides its own, which its comma pays for
  induction vs generalizing fuel with
  | nil =>
      obtain ⟨fuel, rfl⟩ := Nat.exists_eq_add_one.2 (Nat.zero_lt_of_lt hfuel)
      exact items_close false
  | cons v vs ih =>
      obtain ⟨hv, hvs⟩ := List.forall_mem_cons.1 hvs
      obtain ⟨b, bs, hhead, hblank, hb⟩ := hv.head
      rw [bytes_itemsTail_cons, List.length_cons, List.length_append] at hfuel
      obtain ⟨fuel, rfl⟩ := Nat.exists_eq_add_of_le' (show 2 ≤ fuel by omega)
      rw [bytes_itemsTail_cons, List.cons_append, List.append_assoc, hhead, List.cons_append,
        items_comma hblank hb, ← List.cons_append, ← hhead]
      exact item_append hv (by omega) (ih hvs (by omega))

theorem Value.ReadsBack.array (hvs : ∀ v ∈ vs, v.ReadsBack) : (Value.array vs).ReadsBack := by
  have htext : bytes (Value.array vs).text = 0x5B :: (bytes (itemsText vs) ++ [0x5D]) := by
    rw [Value.text, List.cons_append, bytes_cons, bytes_append]
    rfl
  apply of_cons htext rfl (by decide)
  intro fuel rest hfuel
  rw [List.length_append, List.length_singleton] at hfuel
  have hitems : items fuel true (bytes (itemsText vs) ++ 0x5D :: rest) = (toItems vs, rest) := by
    obtain ⟨fuel, rfl⟩ := Nat.exists_eq_add_of_le' (show 2 ≤ fuel by omega)
    cases vs with
    | nil => exact items_close true
    | cons v vs =>
        obtain ⟨hv, hvs⟩ := List.forall_mem_cons.1 hvs
        obtain ⟨b, bs, hhead, hblank, hb⟩ := hv.head
        have hpos : 0 < (bytes v.text).length := by simp [hhead]
        rw [itemsText_cons, bytes_append, List.length_append] at hfuel
        rw [itemsText_cons, bytes_append, List.append_assoc, hhead, List.cons_append,
          items_first hblank hb, ← List.cons_append, ← hhead]
        exact item_append hv (by omega) (items_itemsTail hvs (by omega))
  rw [node, List.cons_append, skipBlank_cons rfl, List.append_assoc]
  simp [hitems, toNode]

/-! ### Objects -/

variable {m : String × Value} {ms : List (String × Value)}

theorem members_close (first : Bool) : members (fuel + 1) first (0x7D :: rest) = (.closed, rest) := by
  rw [members, skipBlank_cons rfl]
  rfl

theorem members_first : members (fuel + 1) true (0x22 :: bs) = member fuel bs := by
  rw [members, skipBlank_cons rfl]
  rfl

theorem members_comma : members (fuel + 1) false (0x2C :: 0x22 :: bs) = member fuel bs := by
  rw [members, skipBlank_cons rfl]
  simp only [skipBlank_cons (show isBlank 0x22 = false from rfl)]
  rfl

def memberBytes (m : String × Value) : Bytes := bytes (m.1.toList.flatMap escapeChar) ++ 0x22 :: 0x3A :: bytes m.2.text

theorem bytes_member (m : String × Value) : bytes (stringText m.1 ++ ':' :: m.2.text) = 0x22 :: memberBytes m := by
  rw [bytes_append, bytes_stringText, bytes_cons, List.cons_append, List.append_assoc]
  rfl

theorem length_lt_memberBytes (m : String × Value) : (bytes m.2.text).length < (memberBytes m).length := by
  simp only [memberBytes, List.length_append, List.length_cons]
  omega

def membersTail (ms : List (String × Value)) : List Char :=
  ms.flatMap fun m => ',' :: (stringText m.1 ++ ':' :: m.2.text)

theorem membersText_cons (m : String × Value) (ms : List (String × Value)) :
    membersText (m :: ms) = (stringText m.1 ++ ':' :: m.2.text) ++ membersTail ms := by
  unfold membersTail
  induction ms generalizing m with
  | nil => simp [membersText]
  | cons w ms ih => simp [membersText, ih]

theorem bytes_membersTail_cons (m : String × Value) (ms : List (String × Value)) :
    bytes (membersTail (m :: ms)) = 0x2C :: 0x22 :: (memberBytes m ++ bytes (membersTail ms)) := by
  rw [membersTail, List.flatMap_cons, List.cons_append, bytes_cons, bytes_append, bytes_member]
  rfl

theorem member_append (hm : m.2.ReadsBack) (hfuel : 2 * (bytes m.2.text).length ≤ fuel)
    (htail : members fuel false tail = (toMembers ms, rest)) :
    member (fuel + 1) (memberBytes m ++ tail) = (toMembers (m :: ms), rest) := by
  rw [member, memberBytes, List.append_assoc, List.cons_append, quoted_stringText]
  simp only [List.cons_append, skipBlank_cons (show isBlank 0x3A = false from rfl), hm.read fuel tail hfuel,
    htail, toMembers]

theorem members_membersTail (hms : ∀ m ∈ ms, m.2.ReadsBack) (hfuel : 2 * (bytes (membersTail ms)).length < fuel) :
    members fuel false (bytes (membersTail ms) ++ 0x7D :: rest) = (toMembers ms, rest) := by
  induction ms generalizing fuel with
  | nil =>
      obtain ⟨fuel, rfl⟩ := Nat.exists_eq_add_one.2 (Nat.zero_lt_of_lt hfuel)
      exact members_close false
  | cons m ms ih =>
      obtain ⟨hm, hms⟩ := List.forall_mem_cons.1 hms
      have hlt := length_lt_memberBytes m
      rw [bytes_membersTail_cons, List.length_cons, List.length_cons, List.length_append] at hfuel
      obtain ⟨fuel, rfl⟩ := Nat.exists_eq_add_of_le' (show 2 ≤ fuel by omega)
      rw [bytes_membersTail_cons, List.cons_append, List.cons_append, List.append_assoc, members_comma]
      exact member_append hm (by omega) (ih hms (by omega))

theorem Value.ReadsBack.object (hms : ∀ m ∈ ms, m.2.ReadsBack) : (Value.object ms).ReadsBack := by
  have htext : bytes (Value.object ms).text = 0x7B :: (bytes (membersText ms) ++ [0x7D]) := by
    rw [Value.text, List.cons_append, bytes_cons, bytes_append]
    rfl
  apply of_cons htext rfl (by decide)
  intro fuel rest hfuel
  rw [List.length_append, List.length_singleton] at hfuel
  have hmembers : members fuel true (bytes (membersText ms) ++ 0x7D :: rest) = (toMembers ms, rest) := by
    obtain ⟨fuel, rfl⟩ := Nat.exists_eq_add_of_le' (show 2 ≤ fuel by omega)
    cases ms with
    | nil => exact members_close true
    | cons m ms =>
        obtain ⟨hm, hms⟩ := List.forall_mem_cons.1 hms
        have hlt := length_lt_memberBytes m
        rw [membersText_cons, bytes_append, bytes_member, List.length_append, List.length_cons] at hfuel
        rw [membersText_cons, bytes_append, bytes_member, List.append_assoc, List.cons_append, members_first]
        exact member_append hm (by omega) (members_membersTail hms (by omega))
  rw [node, List.cons_append, skipBlank_cons rfl, List.append_assoc]
  simp [hmembers, toNode]

/-! ### Whole texts -/

/-- No number is in the value, and it nests less than `depth` deep. -/
inductive Value.IsPlain : (depth : Nat) → Value → Prop
  | null (depth : Nat) : IsPlain depth .null
  | bool (depth : Nat) (b : Bool) : IsPlain depth (.bool b)
  | string (depth : Nat) (s : String) : IsPlain depth (.string s)
  | array {depth : Nat} {items : List Value} : 0 < depth → (∀ v ∈ items, IsPlain depth v) →
      IsPlain (depth + 1) (.array items)
  | object {depth : Nat} {members : List (String × Value)} : 0 < depth → (∀ m ∈ members, IsPlain depth m.2) →
      IsPlain (depth + 1) (.object members)

variable {depth : Nat}

theorem Value.IsPlain.strings (texts : List String) (depth : Nat) :
    (Value.array (texts.map .string)).IsPlain (depth + 2) := by
  apply array (Nat.succ_pos depth)
  intro v hv
  obtain ⟨s, -, rfl⟩ := List.mem_map.1 hv
  exact .string _ s

theorem Value.IsPlain.readsBack (h : v.IsPlain depth) : v.ReadsBack := by
  induction h with
  | null => exact .null
  | bool _ b => exact .bool b
  | string _ s => exact .string s
  | array _ _ ih => exact .array ih
  | object _ _ ih => exact .object ih

theorem Value.IsPlain.parse (h : v.IsPlain depth) : parse (Text.encode (print v)) = ⟨v.toNode, false⟩ := by
  have hread := h.readsBack.read (fuelFor (bytes v.text)) [] (by rw [fuelFor]; omega)
  rw [List.append_nil] at hread
  rw [print, Text.encode_ofList, ← bytes, Json.parse, hread]
  rfl

theorem values_toItems (h : ∀ v ∈ vs, v.toNode.value depth = .ok v) : (toItems vs).values depth = .ok vs := by
  induction vs with
  | nil => rfl
  | cons v vs ih =>
      obtain ⟨hv, hvs⟩ := List.forall_mem_cons.1 h
      rw [toItems, Items.values, hv, ih hvs]
      rfl

theorem values_toMembers (h : ∀ m ∈ ms, m.2.toNode.value depth = .ok m.2) :
    (toMembers ms).values depth = .ok ms := by
  induction ms with
  | nil => rfl
  | cons m ms ih =>
      obtain ⟨hm, hms⟩ := List.forall_mem_cons.1 h
      rw [toMembers, Members.values, text_ofString, hm, ih hms]
      rfl

theorem Value.IsPlain.value_toNode (h : v.IsPlain depth) : v.toNode.value depth = .ok v := by
  induction h with
  | null | bool => rfl
  | string _ s =>
      rw [toNode, Node.value, text_ofString]
      rfl
  | array hdepth _ ih =>
      rw [toNode, Node.value, if_neg (by omega), Nat.add_sub_cancel, values_toItems ih]
      rfl
  | object hdepth _ ih =>
      rw [toNode, Node.value, if_neg (by omega), Nat.add_sub_cancel, values_toMembers ih]
      rfl

end Inlay.Json
