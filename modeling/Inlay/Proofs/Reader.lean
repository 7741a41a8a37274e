import Inlay.Proofs.Grammar
import Inlay.Proofs.Result
import Mathlib.Data.List.TakeWhile

namespace Inlay.Json

variable {bytes rest : Bytes}

/-! ### Strings and numbers -/

theorem Quoted.Written.of_push {u : Unit16} {us bytes' : Bytes} {q : Quoted} (hu : u.Written us)
    (h : Quoted.push u (quoted bytes') = (q, rest)) (hclosed : q.ending = .closed)
    (ih : ∀ {q : Quoted}, quoted bytes' = (q, rest) → q.ending = .closed → ∃ bs, bytes' = bs ++ rest ∧ q.Written bs) :
    ∃ bs, us ++ bytes' = bs ++ rest ∧ q.Written bs := by
  obtain ⟨rfl, hrest⟩ := Prod.mk.inj h
  obtain ⟨bs, rfl, hq⟩ := ih (Prod.ext rfl hrest) hclosed
  exact ⟨us ++ bs, (List.append_assoc us bs rest).symm, .push hu hq⟩

theorem Quoted.Written.of_quoted {q : Quoted} (h : quoted bytes = (q, rest)) (hclosed : q.ending = .closed) :
    ∃ bs, bytes = bs ++ rest ∧ q.Written bs := by
  fun_induction quoted bytes generalizing q with
  | case2 b rest' hb =>
      obtain rfl := eq_of_beq hb
      cases h
      exact ⟨[0x22], rfl, .close⟩
  | case4 b _ hb e he h₁ h₂ h₃ h₄ rest' n hunit ih =>
      obtain rfl := eq_of_beq hb
      obtain rfl := eq_of_beq he
      exact of_push (.hex hunit) h hclosed ih
  | case7 b _ hb e rest' _ c hshort ih =>
      obtain rfl := eq_of_beq hb
      exact of_push (.short hshort) h hclosed ih
  | case10 b rest' hquote hslash hcontrol ih =>
      have hb : (Unit16.byte b).Written [b] := .byte (by simpa using hquote) (by simpa using hslash) hcontrol
      exact of_push hb h hclosed ih
  | _ =>
      -- the string does not end
      cases h
      cases hclosed

theorem WrittenDigits.of_digits {ds : List Nat} (h : digits bytes = .ok (ds, rest)) :
    ∃ bs, bytes = bs ++ rest ∧ WrittenDigits ds bs := by
  rw [digits] at h
  split at h
  · cases h
  · next hne =>
    cases h
    refine ⟨bytes.takeWhile isDigit, List.takeWhile_append_dropWhile.symm, by simpa using hne, ?_, rfl⟩
    exact fun b hb => List.mem_takeWhile_imp hb

theorem WrittenFraction.of_fractionPart {hasFraction : Bool} {ds : List Nat}
    (h : fractionPart bytes = .ok (hasFraction, ds, rest)) :
    ∃ bs, bytes = bs ++ rest ∧ WrittenFraction hasFraction ds bs := by
  unfold fractionPart at h
  split at h
  · next bytes =>
    obtain ⟨⟨ds, rest⟩, hdigits, h⟩ := bind_eq_ok.1 h
    cases h
    obtain ⟨bs, rfl, hds⟩ := WrittenDigits.of_digits hdigits
    exact ⟨0x2E :: bs, rfl, .present hds⟩
  · cases h
    exact ⟨[], rfl, .absent⟩

theorem WrittenExponent.of_exponentPart {exponent : Option (Bool × List Nat)}
    (h : exponentPart bytes = .ok (exponent, rest)) : ∃ bs, bytes = bs ++ rest ∧ WrittenExponent exponent bs := by
  unfold exponentPart at h
  split at h
  · next e bytes =>
    split at h
    · next he =>
      have he : e = 0x65 ∨ e = 0x45 := by simpa using he
      obtain ⟨⟨ds, rest⟩, hdigits, h⟩ := bind_eq_ok.1 h
      cases h
      obtain ⟨bs, hbs, hds⟩ := WrittenDigits.of_digits hdigits
      split at hbs
      · subst hbs
        exact ⟨e :: 0x2D :: bs, rfl, .minus he hds⟩
      · subst hbs
        exact ⟨e :: 0x2B :: bs, rfl, .plus he hds⟩
      · subst hbs
        exact ⟨e :: bs, rfl, .unsigned he hds⟩
    · cases h
      exact ⟨[], rfl, .absent⟩
  · cases h
    exact ⟨[], rfl, .absent⟩

theorem Numeral.Written.of_numeral {n : Numeral} (h : numeral bytes = .ok (n, rest)) :
    ∃ bs, bytes = bs ++ rest ∧ n.Written bs := by
  obtain ⟨⟨whole, _⟩, hwhole, h⟩ := bind_eq_ok.1 h
  change (if whole.head? = some 0 ∧ 1 < whole.length then _ else _) = _ at h
  by_cases hzero : whole.head? = some 0 ∧ 1 < whole.length
  · rw [if_pos hzero] at h
    cases h
  · rw [if_neg hzero] at h
    obtain ⟨⟨hasFraction, fraction, _⟩, hfraction, h⟩ := bind_eq_ok.1 h
    obtain ⟨⟨exponent, _⟩, hexponent, h⟩ := bind_eq_ok.1 h
    cases h
    obtain ⟨ws, hws, hw⟩ := WrittenDigits.of_digits hwhole
    obtain ⟨fs, rfl, hf⟩ := WrittenFraction.of_fractionPart hfraction
    obtain ⟨es, rfl, he⟩ := WrittenExponent.of_exponentPart hexponent
    refine ⟨sign _ ++ (ws ++ (fs ++ es)), ?_, hzero, ws, fs, es, hw, hf, he, rfl⟩
    simp only [List.append_assoc, ← hws]
    split <;> rfl

/-! ### Values -/

theorem exists_blanks (bytes : Bytes) : ∃ pad, IsBlanks pad ∧ bytes = pad ++ skipBlank bytes :=
  ⟨bytes.takeWhile isBlank, fun _ hb => List.mem_takeWhile_imp hb, List.takeWhile_append_dropWhile.symm⟩

theorem eq_append_of_word {value n : Node} {expected : Bytes} (h : word value expected bytes = (n, rest))
    (hskip : n.skip = .ok ()) : bytes = expected ++ rest ∧ n = value := by
  induction expected generalizing bytes with
  | nil =>
      cases h
      exact ⟨rfl, rfl⟩
  | cons e expected ih =>
      cases bytes with
      | nil =>
          cases h
          cases hskip
      | cons b bytes =>
          rw [word] at h
          split at h
          · next hb =>
            obtain ⟨rfl, rfl⟩ := ih h
            exact ⟨by rw [eq_of_beq hb]; rfl, rfl⟩
          · cases h
            cases hskip

theorem skip_string_iff {q : Quoted} : (Node.string q).skip = .ok () ↔ q.ending = .closed := by
  rw [Node.skip]
  cases q.ending <;> simp [Quoted.endingFault?]

theorem skip_cons_iff {key : Quoted} {value : Node} {tail : Members} :
    (Members.cons key value tail).skip = .ok () ↔ key.ending = .closed ∧ value.skip = .ok () ∧ tail.skip = .ok () := by
  rw [Members.skip]
  cases key.ending <;> simp [Quoted.endingFault?, Unique.exists_iff]

theorem Separates.append_blanks {first : Bool} {sep pad : Bytes} (h : Separates first sep) (hpad : IsBlanks pad) :
    Separates first (sep ++ pad) := by
  cases h with
  | first hsep => exact .first (List.forall_mem_append.2 ⟨hsep, hpad⟩)
  | @comma before after hbefore hafter =>
      rw [List.append_assoc, List.cons_append]
      exact .comma hbefore (List.forall_mem_append.2 ⟨hafter, hpad⟩)

mutual

theorem Node.Written.of_node {fuel : Nat} {bytes rest : Bytes} {n : Node} (h : node fuel bytes = (n, rest))
    (hskip : n.skip = .ok ()) : ∃ pad bs, bytes = pad ++ (bs ++ rest) ∧ IsBlanks pad ∧ n.Written bs := by
  -- the readers call each other with less fuel; without any they give a fault, which `hskip` rules out
  cases fuel with
  | zero =>
      cases h
      cases hskip
  | succ fuel =>
      obtain ⟨pad, hpad, hbytes⟩ := exists_blanks bytes
      suffices ∃ bs, skipBlank bytes = bs ++ rest ∧ n.Written bs by
        obtain ⟨bs, hbs, hn⟩ := this
        exact ⟨pad, bs, by rw [← hbs, ← hbytes], hpad, hn⟩
      unfold node at h
      split at h
      · cases h
        cases hskip
      · next b tail htail =>
        rw [htail]
        split_ifs at h with hquote hbracket hbrace hnull htrue hfalse hnumber
        · obtain rfl := eq_of_beq hquote
          cases hq : quoted tail with
          | mk q after =>
              rw [hq] at h
              cases h
              obtain ⟨bs, rfl, hwritten⟩ := Quoted.Written.of_quoted hq (skip_string_iff.1 hskip)
              exact ⟨0x22 :: bs, rfl, .string hwritten⟩
        · obtain rfl := eq_of_beq hbracket
          cases his : items fuel true tail with
          | mk is after =>
              rw [his] at h
              cases h
              obtain ⟨bs, rfl, hwritten⟩ := Items.Written.of_items his hskip
              exact ⟨0x5B :: bs, rfl, .array hwritten⟩
        · obtain rfl := eq_of_beq hbrace
          cases hms : members fuel true tail with
          | mk ms after =>
              rw [hms] at h
              cases h
              obtain ⟨bs, rfl, hwritten⟩ := Members.Written.of_members hms hskip
              exact ⟨0x7B :: bs, rfl, .object hwritten⟩
        · obtain rfl := eq_of_beq hnull
          obtain ⟨rfl, rfl⟩ := eq_append_of_word h hskip
          exact ⟨[0x6E, 0x75, 0x6C, 0x6C], rfl, .null⟩
        · obtain rfl := eq_of_beq htrue
          obtain ⟨rfl, rfl⟩ := eq_append_of_word h hskip
          exact ⟨_, rfl, .bool true⟩
        · obtain rfl := eq_of_beq hfalse
          obtain ⟨rfl, rfl⟩ := eq_append_of_word h hskip
          exact ⟨_, rfl, .bool false⟩
        · split at h
          · next n hn =>
            cases h
            obtain ⟨bs, hbs, hn⟩ := Numeral.Written.of_numeral hn
            exact ⟨bs, hbs, .number hn⟩
          · cases h
            cases hskip
        · cases h
          cases hskip

theorem Items.Written.of_items {fuel : Nat} {first : Bool} {bytes rest : Bytes} {is : Items}
    (h : items fuel first bytes = (is, rest)) (hskip : is.skip = .ok ()) :
    ∃ bs, bytes = bs ++ rest ∧ is.Written first bs := by
  cases fuel with
  | zero =>
      cases h
      cases hskip
  | succ fuel =>
      obtain ⟨pad, hpad, hbytes⟩ := exists_blanks bytes
      rw [hbytes]
      unfold items at h
      split at h
      · cases h
        cases hskip
      · next b tail htail =>
        rw [htail]
        split_ifs at h with hend hfirst hcomma
        · obtain rfl := eq_of_beq hend
          cases h
          exact ⟨pad ++ [0x5D], (List.append_assoc pad [0x5D] rest).symm, .close hpad⟩
        · obtain rfl := hfirst
          exact Items.Written.of_item h hskip (.first hpad)
        · obtain rfl := eq_of_beq hcomma
          obtain rfl := Bool.eq_false_iff.2 hfirst
          obtain ⟨pad', hpad', htail⟩ := exists_blanks tail
          split at h
          · cases h
            cases hskip
          · obtain ⟨bs, hbs, his⟩ := Items.Written.of_item h hskip (.comma hpad hpad')
            refine ⟨bs, ?_, his⟩
            rw [← hbs, List.append_assoc, List.cons_append, ← htail]
        · cases h
          cases hskip

theorem Items.Written.of_item {fuel : Nat} {first : Bool} {sep bytes rest : Bytes} {is : Items}
    (h : item fuel bytes = (is, rest)) (hskip : is.skip = .ok ()) (hsep : Separates first sep) :
    ∃ bs, sep ++ bytes = bs ++ rest ∧ is.Written first bs := by
  cases fuel with
  | zero =>
      cases h
      cases hskip
  | succ fuel =>
      cases hhead : node fuel bytes with
      | mk head after =>
          cases htail : items fuel false after with
          | mk tail after' =>
              rw [item, hhead] at h
              simp only [htail] at h
              cases h
              obtain ⟨_, hheadSkip, htailSkip⟩ := bind_eq_ok.1 hskip
              obtain ⟨pad, bs, rfl, hpad, hbs⟩ := Node.Written.of_node hhead hheadSkip
              obtain ⟨ts, rfl, hts⟩ := Items.Written.of_items htail htailSkip
              refine ⟨(sep ++ pad) ++ (bs ++ ts), ?_, .cons (hsep.append_blanks hpad) hbs hts⟩
              simp only [List.append_assoc]

theorem Members.Written.of_members {fuel : Nat} {first : Bool} {bytes rest : Bytes} {ms : Members}
    (h : members fuel first bytes = (ms, rest)) (hskip : ms.skip = .ok ()) :
    ∃ bs, bytes = bs ++ rest ∧ ms.Written first bs := by
  cases fuel with
  | zero =>
      cases h
      cases hskip
  | succ fuel =>
      obtain ⟨pad, hpad, hbytes⟩ := exists_blanks bytes
      rw [hbytes]
      unfold members at h
      split at h
      · cases h
        cases hskip
      · next b tail htail =>
        rw [htail]
        split_ifs at h with hend hfirst hquote hcomma
        · obtain rfl := eq_of_beq hend
          cases h
          exact ⟨pad ++ [0x7D], (List.append_assoc pad [0x7D] rest).symm, .close hpad⟩
        · obtain rfl := hfirst
          obtain rfl := eq_of_beq hquote
          exact Members.Written.of_member h hskip (.first hpad)
        · cases h
          cases hskip
        · obtain rfl := eq_of_beq hcomma
          obtain rfl := Bool.eq_false_iff.2 hfirst
          obtain ⟨pad', hpad', htail⟩ := exists_blanks tail
          split at h
          · cases h
            cases hskip
          · next hkey =>
            obtain ⟨bs, hbs, hms⟩ := Members.Written.of_member h hskip (.comma hpad hpad')
            refine ⟨bs, ?_, hms⟩
            rw [← hbs, List.append_assoc, List.cons_append, htail, hkey]
          · cases h
            cases hskip
          · cases h
            cases hskip
        · cases h
          cases hskip

theorem Members.Written.of_member {fuel : Nat} {first : Bool} {sep bytes rest : Bytes} {ms : Members}
    (h : member fuel bytes = (ms, rest)) (hskip : ms.skip = .ok ()) (hsep : Separates first sep) :
    ∃ bs, sep ++ 0x22 :: bytes = bs ++ rest ∧ ms.Written first bs := by
  cases fuel with
  | zero =>
      cases h
      cases hskip
  | succ fuel =>
      cases hkey : quoted bytes with
      | mk key rest₁ =>
          rw [member, hkey] at h
          obtain ⟨pad, hpad, hrest₁⟩ := exists_blanks rest₁
          simp only at h
          split at h
          · cases h
            cases (skip_cons_iff.1 hskip).2.1
          · next rest₂ hcolon =>
            cases hvalue : node fuel rest₂ with
            | mk value rest₃ =>
                cases htail : members fuel false rest₃ with
                | mk tail rest₄ =>
                    rw [hvalue] at h
                    simp only [htail] at h
                    cases h
                    obtain ⟨hclosed, hvalueSkip, htailSkip⟩ := skip_cons_iff.1 hskip
                    obtain ⟨ks, rfl, hks⟩ := Quoted.Written.of_quoted hkey hclosed
                    obtain ⟨pad', bs, rfl, hpad', hbs⟩ := Node.Written.of_node hvalue hvalueSkip
                    obtain ⟨ts, rfl, hts⟩ := Members.Written.of_members htail htailSkip
                    refine ⟨_, ?_, .cons hsep hks hpad hpad' hbs hts⟩
                    rw [hrest₁, hcolon]
                    simp only [List.append_assoc, List.cons_append]
          · cases h
            cases (skip_cons_iff.1 hskip).2.1

end

theorem isTextOf_of_parse {text : Bytes} {n : Node} (h : parse text = ⟨n, false⟩) (hskip : n.skip = .ok ()) :
    IsTextOf text n := by
  rw [parse] at h
  cases hread : node (fuelFor text) text with
  | mk root rest =>
      rw [hread] at h
      obtain ⟨rfl, htrailing⟩ := Document.mk.inj h
      obtain ⟨pad, bs, rfl, hpad, hn⟩ := Node.Written.of_node hread hskip
      obtain ⟨pad', hpad', hrest⟩ := exists_blanks rest
      refine ⟨pad, bs, rest, rfl, hpad, hn, ?_⟩
      have hnil : skipBlank rest = [] := by simpa using htrailing
      rw [hrest, hnil, List.append_nil]
      exact hpad'

end Inlay.Json
