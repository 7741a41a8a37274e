namespace Inlay

def isIdentifierChar (c : Char) : Bool := c.isAlphanum || c == '.'

def isIdentifier (s : String) : Bool := !s.isEmpty && s.toList.all isIdentifierChar

def tick : Char := '\x60'

def isTick (c : Char) : Bool := c == tick

inductive Piece
  | plain (text : List Char)
  | call (identifier code : List Char)
  deriving DecidableEq, Repr

namespace Piece

def source : Piece → List Char
  | .plain text => text
  | .call identifier code => identifier ++ tick :: code ++ [tick]

end Piece

/-- The text cut at its call-sites, from left to right. After an identifier whose body is not closed
there can be no call-site any more. -/
def pieces : List Char → List Piece
  | [] => []
  | c :: cs =>
    if isIdentifierChar c then
      let identifier := c :: cs.takeWhile isIdentifierChar
      match _h : cs.dropWhile isIdentifierChar with
      | [] => [.plain identifier]
      | t :: body =>
        if isTick t then
          match _h' : body.dropWhile (!isTick ·) with
          | [] => [.plain (identifier ++ t :: body)]
          | _ :: rest => .call identifier (body.takeWhile (!isTick ·)) :: pieces rest
        else .plain identifier :: pieces (t :: body)
    else .plain [c] :: pieces cs
termination_by cs => cs.length
decreasing_by
  · have h₁ := (List.dropWhile_sublist (l := cs) isIdentifierChar).length_le
    have h₂ := (List.dropWhile_sublist (l := body) (!isTick ·)).length_le
    simp only [_h, _h', List.length_cons] at h₁ h₂ ⊢
    omega
  · have h₁ := (List.dropWhile_sublist (l := cs) isIdentifierChar).length_le
    simp only [_h, List.length_cons] at h₁ ⊢
    omega
  · simp

theorem source_pieces (cs : List Char) : (pieces cs).flatMap Piece.source = cs := by
  fun_induction pieces cs with
  | case1 => rfl
  | case2 c cs hc identifier h =>
    have := List.takeWhile_append_dropWhile (p := isIdentifierChar) (l := cs)
    simp_all [Piece.source, identifier]
  | case3 c cs hc identifier t body h ht h' =>
    have := List.takeWhile_append_dropWhile (p := isIdentifierChar) (l := cs)
    simp_all [Piece.source, identifier]
  | case4 c cs hc identifier t body h ht u rest h' ih =>
    have hcs := List.takeWhile_append_dropWhile (p := isIdentifierChar) (l := cs)
    have hbody := List.takeWhile_append_dropWhile (p := (!isTick ·)) (l := body)
    have hu : u = tick := by
      have := List.head?_dropWhile_not (!isTick ·) body
      rw [h'] at this
      simpa [isTick] using this
    have ht' : t = tick := by simpa [isTick] using ht
    rw [h] at hcs
    rw [h'] at hbody
    conv => rhs; rw [← hcs, ← hbody, hu, ht']
    simp [Piece.source, ih, identifier]
  | case5 c cs hc identifier t body h ht ih =>
    have := List.takeWhile_append_dropWhile (p := isIdentifierChar) (l := cs)
    simp_all [Piece.source, identifier]
  | case6 c cs hc ih => simp [Piece.source, ih]

def byteLength : List Char → Nat
  | [] => 0
  | c :: cs => c.utf8Size + byteLength cs

/-- A call-site and the byte offsets of its first and just past its last character. -/
structure CallSite where
  identifier : String
  code : String
  start : Nat
  stop : Nat
  deriving DecidableEq, Repr

namespace CallSite

def text (s : CallSite) : String :=
  s.identifier.push tick ++ s.code.push tick

def length (s : CallSite) : Nat := s.stop - s.start

end CallSite

def sitesFrom (offset : Nat) : List Piece → List CallSite
  | [] => []
  | p :: ps =>
    let next := offset + byteLength p.source
    match p with
    | .plain _ => sitesFrom next ps
    | .call identifier code =>
      ⟨String.ofList identifier, String.ofList code, offset, next⟩ :: sitesFrom next ps

def scan (buffer : String) : List CallSite := sitesFrom 0 (pieces buffer.toList)

end Inlay
