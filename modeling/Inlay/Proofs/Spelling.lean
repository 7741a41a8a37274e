import Inlay.CommandLine.Arguments
import Inlay.Proofs.Result
import Mathlib.Data.List.TakeWhile

namespace Inlay.CommandLine

/-- What is left of an argument after a letter, and the value that it gives. -/
def Joined (rest value : List Char) : Prop := rest = '=' :: value ∨ rest = value ∧ value ≠ [] ∧ value.head? ≠ some '='

/-- Flags by their letters: those given, and the one that still wants a value. -/
inductive Cluster (known : List Flag) : List Char → Given → Option Flag → Prop
  | nil : Cluster known [] [] none
  | letter {c : Char} {cs : List Char} {f : Flag} {given : Given} {waiting : Option Flag} (hf : f ∈ known)
      (hc : f.letter? = some c) (hno : f.takesValue = false) (h : Cluster known cs given waiting) :
      Cluster known (c :: cs) ((f, "") :: given) waiting
  | joined {c : Char} {rest value : List Char} {f : Flag} (hf : f ∈ known) (hc : f.letter? = some c)
      (hyes : f.takesValue = true) (hrest : Joined rest value) :
      Cluster known (c :: rest) [(f, String.ofList value)] none
  | apart {c : Char} {f : Flag} (hf : f ∈ known) (hc : f.letter? = some c) (hyes : f.takesValue = true) :
      Cluster known [c] [] (some f)

inductive Named (known : List Flag) : String → Option String → Given → Option Flag → Prop
  | alone {f : Flag} (hf : f ∈ known) (hno : f.takesValue = false) : Named known f.name none [(f, "")] none
  | joined {f : Flag} (value : String) (hf : f ∈ known) (hyes : f.takesValue = true) :
      Named known f.name (some value) [(f, value)] none
  | apart {f : Flag} (hf : f ∈ known) (hyes : f.takesValue = true) : Named known f.name none [] (some f)

inductive Opens (known : List Flag) : String → Given → Option Flag → Prop
  | name {name : String} {given : Given} {waiting : Option Flag} (h : Named known name none given waiting) :
      Opens known ("--" ++ name) given waiting
  | joined {name value : String} {given : Given} {waiting : Option Flag}
      (h : Named known name (some value) given waiting) : Opens known ("--" ++ name ++ "=" ++ value) given waiting
  | letters {cs : List Char} {given : Given} {waiting : Option Flag} (h : Cluster known cs given waiting)
      (hne : cs ≠ []) : Opens known ("-" ++ String.ofList cs) given waiting

/-- Arguments that belong together, and the flags that they give. -/
inductive Spelling (known : List Flag) : List String → Given → Prop
  | alone {argument : String} {given : Given} (h : Opens known argument given none) : Spelling known [argument] given
  | followed {argument value : String} {given : Given} {f : Flag} (h : Opens known argument given (some f))
      (hvalue : isDashed value = false) : Spelling known [argument, value] (given ++ [(f, value)])

inductive Spells (known : List Flag) : List String → Given → Prop
  | nil : Spells known [] []
  | cons {as bs : List String} {given more : Given} (h : Spelling known as given) (hrest : Spells known bs more) :
      Spells known (as ++ bs) (given ++ more)

/-- Arguments up to the first operand with the flags that they give, and those from there on. -/
inductive Splits (known : List Flag) : List String → Given → List String → Prop
  | operands {as operands : List String} {given : Given} (h : Spells known as given)
      (hoperand : ∀ a ∈ operands.head?, isDashed a = false) : Splits known (as ++ operands) given operands
  | terminated {as : List String} {given : Given} (h : Spells known as given) :
      Splits known (as ++ [terminator]) given []

/-- Each flag once, with a value that it admits, and none that asks for the version instead. -/
structure IsValid (given : Given) : Prop where
  once : (given.map (·.1)).Nodup
  admitted : ∀ g ∈ given, g.1.admits g.2 = true
  runs : ∀ g ∈ given, g.1 ≠ .version

def recordAll (given : Given) : Given → Except Refusal Given
  | [] => .ok given
  | (f, value) :: more => do recordAll (← record given f value) more

def Reading.of (given : Given) : Option Flag → Reading
  | none => .complete given
  | some f => .waiting given f

variable {known : List Flag} {given given' more : Given} {f : Flag} {value argument : String} {reading : Reading}

theorem isValid_nil : IsValid [] := ⟨List.nodup_nil, nofun, nofun⟩

theorem IsValid.of_append (h : IsValid (given ++ more)) : IsValid given := by
  refine ⟨?_, fun g hg => h.admitted g (List.mem_append_left _ hg), fun g hg => h.runs g (List.mem_append_left _ hg)⟩
  have honce := h.once
  rw [List.map_append] at honce
  exact (List.nodup_append.1 honce).1

theorem record_eq_ok (hg : IsValid given) : record given f value = .ok given' ↔
    given' = given ++ [(f, value)] ∧ IsValid (given ++ [(f, value)]) := by
  have hvalid : IsValid (given ++ [(f, value)]) ↔
      f ≠ .version ∧ (∀ g ∈ given, g.1 ≠ f) ∧ f.admits value = true := by
    constructor
    · intro h
      refine ⟨h.runs (f, value) (by simp), fun g hmem => ?_, h.admitted (f, value) (by simp)⟩
      have honce := h.once
      rw [List.map_append, List.nodup_append] at honce
      exact honce.2.2 g.1 (List.mem_map_of_mem hmem) f (by simp)
    · rintro ⟨hversion, hfresh, hadmits⟩
      refine ⟨?_, fun g hmem => ?_, fun g hmem => ?_⟩
      · rw [List.map_append, List.nodup_append]
        refine ⟨hg.once, by simp, fun i hi j hj => ?_⟩
        obtain ⟨g, hmem, rfl⟩ := List.mem_map.1 hi
        obtain rfl : j = f := by simpa using hj
        exact hfresh g hmem
      · rcases List.mem_append.1 hmem with hmem | hmem
        · exact hg.admitted g hmem
        · obtain rfl := List.mem_singleton.1 hmem
          exact hadmits
      · rcases List.mem_append.1 hmem with hmem | hmem
        · exact hg.runs g hmem
        · obtain rfl := List.mem_singleton.1 hmem
          exact hversion
  rw [hvalid, record]
  by_cases hversion : f = .version
  · rw [if_pos hversion]
    exact ⟨nofun, fun h => absurd hversion h.2.1⟩
  · rw [if_neg hversion]
    split
    · next hno =>
        refine ⟨nofun, fun ⟨_, _, hfresh, hadmits⟩ => ?_⟩
        rw [Bool.or_eq_true, List.any_eq_true, hadmits] at hno
        obtain ⟨g, hmem, hsame⟩ | hno := hno
        · exact absurd (by simpa using hsame) (hfresh g hmem)
        · cases hno
    · next hyes =>
        rw [Bool.or_eq_true, not_or, List.any_eq_true] at hyes
        constructor
        · intro h
          cases h
          refine ⟨rfl, hversion, fun g hmem hsame => hyes.1 ⟨g, hmem, by simpa using hsame⟩, by simpa using hyes.2⟩
        · rintro ⟨rfl, -⟩
          rfl

theorem recordAll_eq_ok (hg : IsValid given) : recordAll given more = .ok given' ↔
    given' = given ++ more ∧ IsValid (given ++ more) := by
  induction more generalizing given with
  | nil =>
      rw [recordAll, List.append_nil]
      exact ⟨fun h => by cases h; exact ⟨rfl, hg⟩, fun h => by rw [h.1]⟩
  | cons g more ih =>
      obtain ⟨f, value⟩ := g
      rw [List.append_cons, recordAll]
      cases hrecord : record given f value with
      | error e =>
          refine ⟨nofun, fun ⟨_, hvalid⟩ => ?_⟩
          have hrecord' := (record_eq_ok hg).2 ⟨rfl, hvalid.of_append⟩
          rw [hrecord] at hrecord'
          cases hrecord'
      | ok given₁ =>
          obtain ⟨rfl, hvalid⟩ := (record_eq_ok hg).1 hrecord
          exact ih hvalid

theorem Flag.name_inj {f g : Flag} (h : f.name = g.name) : f = g := by
  revert h
  cases f <;> cases g <;> decide

theorem Flag.letter?_inj {f g : Flag} {c : Char} (hf : f.letter? = some c) (hg : g.letter? = some c) : f = g := by
  have h := hf.trans hg.symm
  have hsome : f.letter? ≠ none := by simp [hf]
  revert h hsome
  cases f <;> cases g <;> decide

theorem find?_name {name : String} : known.find? (·.name == name) = some f ↔ f ∈ known ∧ f.name = name := by
  constructor
  · intro h
    exact ⟨List.mem_of_find?_eq_some h, by simpa using List.find?_some h⟩
  · rintro ⟨hf, rfl⟩
    cases hfind : known.find? (·.name == f.name) with
    | none => exact absurd (List.find?_eq_none.1 hfind f hf) (by simp)
    | some g =>
        have hname : g.name = f.name := by simpa using List.find?_some hfind
        rw [Flag.name_inj hname]

theorem find?_letter {c : Char} :
    known.find? (·.letter? == some c) = some f ↔ f ∈ known ∧ f.letter? = some c := by
  constructor
  · intro h
    exact ⟨List.mem_of_find?_eq_some h, by simpa using List.find?_some h⟩
  · rintro ⟨hf, hc⟩
    cases hfind : known.find? (·.letter? == some c) with
    | none => exact absurd (List.find?_eq_none.1 hfind f hf) (by simp [hc])
    | some g =>
        have hletter : g.letter? = some c := by simpa using List.find?_some hfind
        rw [Flag.letter?_inj hletter hc]

theorem recordAll_singleton (given : Given) (f : Flag) (value : String) :
    recordAll given [(f, value)] = record given f value := by
  rw [recordAll]
  cases record given f value <;> rfl

theorem readLong_of_named {name : String} {value : Option String} {waiting : Option Flag}
    (h : Named known name value more waiting) (given : Given) :
    readLong known given name value = (recordAll given more).map (Reading.of · waiting) := by
  unfold readLong
  cases h with
  | alone hf hno =>
      rw [find?_name.2 ⟨hf, rfl⟩, recordAll_singleton]
      simp only [hno]
      rfl
  | joined value hf hyes =>
      rw [find?_name.2 ⟨hf, rfl⟩, recordAll_singleton]
      simp only [hyes]
      rfl
  | apart hf hyes =>
      rw [find?_name.2 ⟨hf, rfl⟩]
      simp only [hyes]
      rfl

theorem exists_named {name : String} {value : Option String} (h : readLong known given name value = .ok reading) :
    ∃ more waiting, Named known name value more waiting := by
  unfold readLong at h
  cases hfind : known.find? (·.name == name) with
  | none =>
      rw [hfind] at h
      cases h
  | some f =>
      obtain ⟨hf, rfl⟩ := find?_name.1 hfind
      rw [hfind] at h
      cases hvalue : f.takesValue with
      | false =>
          cases value with
          | none => exact ⟨_, _, .alone hf hvalue⟩
          | some value =>
              simp only [hvalue] at h
              cases h
      | true =>
          cases value with
          | none => exact ⟨_, _, .apart hf hvalue⟩
          | some value => exact ⟨_, _, .joined value hf hvalue⟩

theorem readShort_of_cluster {cs : List Char} {waiting : Option Flag} (h : Cluster known cs more waiting)
    (given : Given) : readShort known given cs = (recordAll given more).map (Reading.of · waiting) := by
  induction h generalizing given with
  | nil => rfl
  | @letter c cs f more waiting hf hc hno _ ih =>
      rw [readShort, find?_letter.2 ⟨hf, hc⟩]
      simp only [hno, Bool.false_eq_true, if_false, recordAll]
      cases record given f "" with
      | error e => rfl
      | ok given' => exact ih given'
  | @joined c rest value f hf hc hyes hrest =>
      rw [readShort, find?_letter.2 ⟨hf, hc⟩, recordAll_singleton]
      simp only [hyes, if_true]
      obtain rfl | ⟨rfl, hne, hequals⟩ := hrest
      · rfl
      · cases rest with
        | nil => exact absurd rfl hne
        | cons c rest =>
            split
            · next hnil => cases hnil
            · next value hrest =>
                cases hrest
                exact absurd rfl hequals
            · rfl
  | apart hf hc hyes =>
      rw [readShort, find?_letter.2 ⟨hf, hc⟩]
      simp only [hyes, if_true]
      rfl

theorem exists_cluster {cs : List Char} (h : readShort known given cs = .ok reading) :
    ∃ more waiting, Cluster known cs more waiting := by
  induction cs generalizing given with
  | nil => exact ⟨_, _, .nil⟩
  | cons c cs ih =>
      rw [readShort] at h
      cases hfind : known.find? (·.letter? == some c) with
      | none =>
          rw [hfind] at h
          cases h
      | some f =>
          obtain ⟨hf, hc⟩ := find?_letter.1 hfind
          rw [hfind] at h
          cases hvalue : f.takesValue with
          | false =>
              simp only [hvalue, Bool.false_eq_true, if_false] at h
              cases hrecord : record given f "" with
              | error e =>
                  rw [hrecord] at h
                  cases h
              | ok given' =>
                  rw [hrecord] at h
                  obtain ⟨more, waiting, hcluster⟩ := ih h
                  exact ⟨_, _, .letter hf hc hvalue hcluster⟩
          | true =>
              cases cs with
              | nil => exact ⟨_, _, .apart hf hc hvalue⟩
              | cons c' rest =>
                  by_cases hequals : c' = '='
                  · subst hequals
                    exact ⟨_, _, .joined hf hc hvalue (.inl rfl)⟩
                  · exact ⟨_, _, .joined hf hc hvalue (.inr ⟨rfl, by simp, by simpa using hequals⟩)⟩

theorem Flag.equals_not_mem (f : Flag) : '=' ∉ f.name.toList := by
  cases f <;> decide

theorem Named.equals_not_mem {name : String} {value : Option String} {waiting : Option Flag}
    (h : Named known name value more waiting) : '=' ∉ name.toList := by
  cases h with
  | alone | joined | apart => exact Flag.equals_not_mem _

theorem Cluster.head_ne_dash {c : Char} {cs : List Char} {waiting : Option Flag}
    (h : Cluster known (c :: cs) more waiting) : c ≠ '-' := by
  have hletter (f : Flag) (hc : f.letter? = some c) : c ≠ '-' := by
    rintro rfl
    revert hc
    cases f <;> decide
  cases h with
  | letter _ hc | joined _ hc | apart _ hc => exact hletter _ hc

theorem readDashed_long {cs : List Char} (h : argument.toList = '-' :: '-' :: cs) (given : Given) :
    readDashed known given argument =
      readLong known given (String.ofList (cs.takeWhile (· != '=')))
        ((cs.dropWhile (· != '=')).tail?.map String.ofList) := by
  rw [readDashed, h]
  split
  · next heq =>
      cases heq
      cases cs.dropWhile (· != '=') <;> rfl
  · next hno heq =>
      cases heq
      exact absurd rfl (hno cs)
  · next hno => exact absurd rfl (hno ('-' :: cs))

theorem toList_name (name : String) : ("--" ++ name).toList = '-' :: '-' :: name.toList := by simp

theorem toList_joined (name value : String) :
    ("--" ++ name ++ "=" ++ value).toList = '-' :: '-' :: (name.toList ++ '=' :: value.toList) := by simp

theorem toList_letters (cs : List Char) : ("-" ++ String.ofList cs).toList = '-' :: cs := by simp

theorem readDashed_of_opens {waiting : Option Flag} (h : Opens known argument more waiting) (given : Given) :
    readDashed known given argument = (recordAll given more).map (Reading.of · waiting) := by
  -- A name has no equals sign, so the first one in the argument ends it.
  have hplain {name : String} (h : '=' ∉ name.toList) : ∀ c ∈ name.toList, (c != '=') = true := fun c hc => by
    simpa using fun heq : c = '=' => h (heq ▸ hc)
  cases h with
  | @name name _ _ h =>
      have hname := hplain h.equals_not_mem
      rw [readDashed_long (toList_name name), List.dropWhile_eq_nil_iff.2 hname, List.takeWhile_eq_self_iff.2 hname,
        String.ofList_toList]
      exact readLong_of_named h given
  | @joined name value _ _ h =>
      have hname := hplain h.equals_not_mem
      rw [readDashed_long (toList_joined name value), List.dropWhile_append_of_pos hname, List.takeWhile_append_of_pos hname]
      simpa using readLong_of_named h given
  | @letters cs _ _ h hne =>
      cases cs with
      | nil => exact absurd rfl hne
      | cons c cs =>
          rw [readDashed, toList_letters]
          split
          · next heq =>
              cases heq
              exact absurd rfl h.head_ne_dash
          · next heq =>
              cases heq
              exact readShort_of_cluster h given
          · next hno => exact absurd rfl (hno (c :: cs))

theorem exists_opens (h : readDashed known given argument = .ok reading) (hne : argument ≠ "-") :
    ∃ more waiting, Opens known argument more waiting := by
  by_cases hlong : ∃ cs, argument.toList = '-' :: '-' :: cs
  · obtain ⟨cs, hcs⟩ := hlong
    rw [readDashed_long hcs] at h
    obtain ⟨more, waiting, hnamed⟩ := exists_named h
    have hsplit := List.takeWhile_append_dropWhile (p := (· != '=')) (l := cs)
    cases hdrop : cs.dropWhile (· != '=') with
    | nil =>
        rw [hdrop] at hnamed hsplit
        have hargument : argument = "--" ++ String.ofList (cs.takeWhile (· != '=')) := by
          refine String.toList_inj.1 ?_
          rw [List.append_nil] at hsplit
          simp [hcs, hsplit]
        exact ⟨more, waiting, hargument ▸ .name hnamed⟩
    | cons c value =>
        have hc : c = '=' := by
          have := List.head?_dropWhile_not (· != '=') cs
          rw [hdrop] at this
          simpa using this
        rw [hdrop] at hnamed hsplit
        subst hc
        have hargument : argument = "--" ++ String.ofList (cs.takeWhile (· != '=')) ++ "=" ++ String.ofList value := by
          refine String.toList_inj.1 ?_
          simp [hcs, hsplit]
        exact ⟨more, waiting, hargument ▸ .joined hnamed⟩
  · unfold readDashed at h
    split at h
    · next cs hcs => exact absurd ⟨cs, hcs⟩ hlong
    · next cs _ hcs =>
        obtain ⟨more, waiting, hcluster⟩ := exists_cluster h
        have hargument : argument = "-" ++ String.ofList cs := by
          refine String.toList_inj.1 ?_
          simp [hcs]
        refine ⟨more, waiting, hargument ▸ .letters hcluster ?_⟩
        rintro rfl
        exact hne hargument
    · cases h

theorem Named.ne_empty {name : String} {value : Option String} {waiting : Option Flag}
    (h : Named known name value more waiting) : name ≠ "" := by
  have hflag (f : Flag) : f.name ≠ "" := by cases f <;> decide
  cases h with
  | alone | joined | apart => exact hflag _

theorem isDashed_of_toList {c : Char} {cs : List Char} (h : argument.toList = '-' :: c :: cs) :
    isDashed argument = true := by
  have hne : argument ≠ "-" := by
    rintro rfl
    cases h
  simp [isDashed, h, hne]

theorem Opens.isDashed {waiting : Option Flag} (h : Opens known argument more waiting) :
    isDashed argument = true := by
  cases h with
  | @name name => exact isDashed_of_toList (toList_name name)
  | @joined name value => exact isDashed_of_toList (toList_joined name value)
  | @letters cs _ _ _ hne =>
      obtain ⟨c, cs, rfl⟩ := List.exists_cons_of_ne_nil hne
      exact isDashed_of_toList (toList_letters (c :: cs))

theorem Opens.ne_terminator {waiting : Option Flag} (h : Opens known argument more waiting) :
    argument ≠ terminator := by
  intro hterminator
  have hlist := congrArg String.toList hterminator
  cases h with
  | name h => exact h.ne_empty (String.toList_eq_nil_iff.1 (by simpa [terminator] using hlist))
  | joined h => exact h.ne_empty (by simp [terminator] at hlist)
  | @letters cs _ _ h hne =>
      have hcs : cs = ['-'] := by simpa [terminator] using hlist
      subst hcs
      exact h.head_ne_dash rfl

theorem recordAll_append (given more rest : Given) :
    recordAll given (more ++ rest) = recordAll given more >>= (recordAll · rest) := by
  induction more generalizing given with
  | nil => rfl
  | cons g more ih =>
      rw [List.cons_append, recordAll, recordAll]
      cases record given g.1 g.2 with
      | error e => rfl
      | ok given' => exact ih given'

theorem readFlags_of_opens {waiting : Option Flag} (h : Opens known argument more waiting) (given : Given)
    (rest : List String) :
    readFlags known given (argument :: rest) = recordAll given more >>= fun given =>
      match waiting, rest with
      | none, rest => readFlags known given rest
      | some _, [] => .error .usage
      | some f, value :: rest =>
        if isDashed value then .error .usage else record given f value >>= (readFlags known · rest) := by
  rw [readFlags, if_neg h.ne_terminator, if_neg (by simp [h.isDashed]), readDashed_of_opens h]
  cases recordAll given more with
  | error e => rfl
  | ok given' => cases waiting <;> cases rest <;> rfl

theorem readFlags_spelling {as : List String} (h : Spelling known as more) (given : Given) (rest : List String) :
    readFlags known given (as ++ rest) = recordAll given more >>= (readFlags known · rest) := by
  cases h with
  | alone h => exact readFlags_of_opens h given rest
  | @followed argument value more f h hvalue =>
      rw [List.cons_append, List.singleton_append, readFlags_of_opens h, recordAll_append]
      cases recordAll given more with
      | error e => rfl
      | ok given' =>
          change (if isDashed value then _ else _) = recordAll given' [(f, value)] >>= _
          rw [if_neg (by simp [hvalue]), recordAll_singleton]

theorem readFlags_spells {as : List String} (h : Spells known as more) (given : Given) (rest : List String) :
    readFlags known given (as ++ rest) = recordAll given more >>= (readFlags known · rest) := by
  induction h generalizing given with
  | nil => rfl
  | cons h _ ih =>
      rw [List.append_assoc, readFlags_spelling h, recordAll_append]
      cases recordAll given _ with
      | error e => rfl
      | ok given' => exact ih given'

theorem readFlags_operands {operands : List String} (h : ∀ a ∈ operands.head?, isDashed a = false) (given : Given) :
    readFlags known given operands = .ok (given, operands) := by
  cases operands with
  | nil => rfl
  | cons operand operands =>
      have hplain := h operand rfl
      have hne : operand ≠ terminator := by
        rintro rfl
        revert hplain
        decide
      rw [readFlags, if_neg hne, hplain]
      rfl

theorem readFlags_of_splits {arguments operands : List String} (h : Splits known arguments more operands)
    (given : Given) :
    readFlags known given arguments = (recordAll given more).map (·, operands) := by
  cases h with
  | operands h hoperand =>
      rw [readFlags_spells h]
      cases recordAll given more with
      | error e => rfl
      | ok given' => exact readFlags_operands hoperand given'
  | terminated h =>
      rw [readFlags_spells h]
      cases recordAll given more with
      | error e => rfl
      | ok given' =>
          change readFlags known given' [terminator] = _
          rw [readFlags, if_pos rfl]
          rfl

theorem Splits.append {as arguments operands : List String} (h : Spelling known as given)
    (hs : Splits known arguments more operands) : Splits known (as ++ arguments) (given ++ more) operands := by
  cases hs with
  | operands hspells hoperand =>
      rw [← List.append_assoc]
      exact .operands (.cons h hspells) hoperand
  | terminated hspells =>
      rw [← List.append_assoc]
      exact .terminated (.cons h hspells)

theorem exists_spelling {rest operands : List String} (hdashed : isDashed argument = true)
    (hterminator : argument ≠ terminator) (h : readFlags known given (argument :: rest) = .ok (given', operands)) :
    ∃ as bs more, argument :: rest = as ++ bs ∧ as ≠ [] ∧ Spelling known as more := by
  have hne : argument ≠ "-" := by
    rintro rfl
    revert hdashed
    decide
  have hread := h
  rw [readFlags, if_neg hterminator, if_neg (by simp [hdashed])] at hread
  obtain ⟨reading, hread, -⟩ := bind_eq_ok.1 hread
  obtain ⟨more, waiting, hopens⟩ := exists_opens hread hne
  cases waiting with
  | none => exact ⟨[argument], rest, more, rfl, by simp, .alone hopens⟩
  | some f =>
      rw [readFlags_of_opens hopens] at h
      obtain ⟨given₁, -, h⟩ := bind_eq_ok.1 h
      cases rest with
      | nil => cases h
      | cons value rest =>
          cases hvalue : isDashed value with
          | true =>
              simp only [hvalue, if_true] at h
              cases h
          | false => exact ⟨[argument, value], rest, _, rfl, by simp, .followed hopens hvalue⟩

theorem exists_splits {arguments operands : List String}
    (h : readFlags known given arguments = .ok (given', operands)) :
    ∃ more, Splits known arguments more operands := by
  -- A value is read together with the argument before it, so the induction is on the length.
  induction hn : arguments.length using Nat.strong_induction_on generalizing arguments given with
  | _ n ih =>
    subst hn
    cases arguments with
    | nil =>
        cases h
        exact ⟨[], .operands .nil nofun⟩
    | cons argument rest =>
        by_cases hterminator : argument = terminator
        · rw [readFlags, if_pos hterminator] at h
          subst hterminator
          cases rest with
          | nil =>
              cases h
              exact ⟨[], .terminated .nil⟩
          | cons => cases h
        · cases hdashed : isDashed argument with
          | false =>
              rw [readFlags, if_neg hterminator, if_pos (by simp [hdashed])] at h
              cases h
              exact ⟨[], .operands .nil (by simpa using hdashed)⟩
          | true =>
              obtain ⟨as, bs, more, has, hne, hspelling⟩ := exists_spelling hdashed hterminator h
              rw [has, readFlags_spelling hspelling] at h
              obtain ⟨given₁, -, h⟩ := bind_eq_ok.1 h
              have hshorter : bs.length < (argument :: rest).length := by
                rw [has, List.length_append]
                exact Nat.lt_add_of_pos_left (List.length_pos_iff.2 hne)
              obtain ⟨later, hlater⟩ := ih bs.length hshorter h rfl
              exact ⟨more ++ later, has ▸ hlater.append hspelling⟩

theorem readFlags_eq_ok {arguments operands : List String} (hg : IsValid given) :
    readFlags known given arguments = .ok (given', operands) ↔
      ∃ more, Splits known arguments more operands ∧ given' = given ++ more ∧ IsValid (given ++ more) := by
  constructor
  · intro h
    obtain ⟨more, hsplits⟩ := exists_splits h
    rw [readFlags_of_splits hsplits] at h
    cases hall : recordAll given more with
    | error e =>
        rw [hall] at h
        cases h
    | ok given₁ =>
        rw [hall] at h
        cases h
        exact ⟨more, hsplits, (recordAll_eq_ok hg).1 hall⟩
  · rintro ⟨more, hsplits, hgiven⟩
    rw [readFlags_of_splits hsplits, (recordAll_eq_ok hg).2 hgiven]
    rfl

theorem readFlags_nil_eq_ok {arguments operands : List String} :
    readFlags known [] arguments = .ok (given, operands) ↔ Splits known arguments given operands ∧ IsValid given := by
  rw [readFlags_eq_ok isValid_nil]
  constructor
  · rintro ⟨more, hsplits, rfl, hvalid⟩
    exact ⟨hsplits, hvalid⟩
  · rintro ⟨hsplits, hvalid⟩
    exact ⟨given, hsplits, rfl, hvalid⟩

theorem value?_eq_some (hg : IsValid given) : value? given f = some value ↔ (f, value) ∈ given := by
  have honce := hg.once
  clear hg
  induction given with
  | nil => exact ⟨nofun, nofun⟩
  | cons g given ih =>
      obtain ⟨f', value'⟩ := g
      rw [List.map_cons, List.nodup_cons] at honce
      unfold value?
      rw [List.find?_cons]
      by_cases hf : f' = f
      · subst hf
        have hno : (f', value) ∉ given := fun hmem => honce.1 (List.mem_map.2 ⟨_, hmem, rfl⟩)
        simp [hno, eq_comm]
      · have hne : f ≠ f' := fun h => hf h.symm
        simp only [decide_eq_false hf]
        exact (ih honce.2).trans (by simp [hne])

end Inlay.CommandLine
