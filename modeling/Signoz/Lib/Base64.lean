import Mathlib.Data.List.Basic

/-!
# Base64 text

The standard alphabet with padding, over bytes given as numbers below 256. Decoding skips line
breaks, and takes back what encoding made (`decode_encode`).
-/

namespace Lib.Base64

/-- The character of a six-bit digit. -/
def encodeDigit (n : Nat) : Char :=
  if n < 26 then Char.ofNat (65 + n)
  else if n < 52 then Char.ofNat (71 + n)
  else if n < 62 then Char.ofNat (n - 4)
  else if n = 62 then '+'
  else '/'

/-- The six-bit digit of a character of the alphabet. -/
def decodeDigit (c : Char) : Option Nat :=
  let n := c.toNat
  if 65 ≤ n ∧ n ≤ 90 then some (n - 65)
  else if 97 ≤ n ∧ n ≤ 122 then some (n - 71)
  else if 48 ≤ n ∧ n ≤ 57 then some (n + 4)
  else if c = '+' then some 62
  else if c = '/' then some 63
  else none

/-- Three bytes become four digits; one or two bytes at the end are padded with `=`. -/
def encode : List Nat → List Char
  | [] => []
  | [a] => [encodeDigit (a / 4), encodeDigit (a % 4 * 16), '=', '=']
  | [a, b] =>
    [encodeDigit (a / 4), encodeDigit (a % 4 * 16 + b / 16), encodeDigit (b % 16 * 4), '=']
  | a :: b :: c :: rest =>
    encodeDigit (a / 4) :: encodeDigit (a % 4 * 16 + b / 16) ::
      encodeDigit (b % 16 * 4 + c / 64) :: encodeDigit (c % 64) :: encode rest

/-- Decode groups of four characters; only the last group may be padded. -/
def decodeGroups : List Char → Option (List Nat)
  | [] => some []
  | x :: y :: z :: w :: rest =>
    match decodeDigit x, decodeDigit y with
    | some a, some b =>
      if z = '=' then if w = '=' ∧ rest = [] then some [a * 4 + b / 16] else none
      else
        match decodeDigit z with
        | none => none
        | some c =>
          if w = '=' then
            if rest = [] then some [a * 4 + b / 16, b % 16 * 16 + c / 4] else none
          else
            match decodeDigit w, decodeGroups rest with
            | some d, some tail =>
              some ((a * 4 + b / 16) :: (b % 16 * 16 + c / 4) :: (c % 4 * 64 + d) :: tail)
            | _, _ => none
    | _, _ => none
  | _ => none

def decode (cs : List Char) : Option (List Nat) :=
  decodeGroups (cs.filter fun c => c ≠ '\n' ∧ c ≠ '\r')

/-- What the characters of encoded text have in common. -/
theorem encodeDigit_spec {n : Nat} (h : n < 64) :
    decodeDigit (encodeDigit n) = some n ∧ encodeDigit n ≠ '=' ∧
      (encodeDigit n).isWhitespace = false := by
  revert n
  decide

@[simp] theorem decodeDigit_encodeDigit {n : Nat} (h : n < 64) :
    decodeDigit (encodeDigit n) = some n := (encodeDigit_spec h).1

theorem encodeDigit_ne_pad {n : Nat} (h : n < 64) : encodeDigit n ≠ '=' := (encodeDigit_spec h).2.1

theorem decodeGroups_encode (bytes : List Nat) (h : ∀ b ∈ bytes, b < 256) :
    decodeGroups (encode bytes) = some bytes := by
  fun_induction encode bytes with
  | case1 => rfl
  | case2 a =>
    have ha := h a (by simp)
    simp only [decodeGroups, decodeDigit_encodeDigit (show a / 4 < 64 by omega),
      decodeDigit_encodeDigit (show a % 4 * 16 < 64 by omega), and_self, if_true,
      Option.some.injEq, List.cons.injEq, and_true]
    omega
  | case3 a b =>
    have ha := h a (by simp)
    have hb := h b (by simp)
    simp only [decodeGroups, decodeDigit_encodeDigit (show a / 4 < 64 by omega),
      decodeDigit_encodeDigit (show a % 4 * 16 + b / 16 < 64 by omega), if_neg (encodeDigit_ne_pad (show b % 16 * 4 < 64 by omega)),
      decodeDigit_encodeDigit (show b % 16 * 4 < 64 by omega), if_true, Option.some.injEq,
      List.cons.injEq, and_true]
    omega
  | case4 a b c rest ih =>
    have ha := h a (by simp)
    have hb := h b (by simp)
    have hc := h c (by simp)
    have hrest := ih fun d hd => h d (by simp [hd])
    simp only [decodeGroups, decodeDigit_encodeDigit (show a / 4 < 64 by omega),
      decodeDigit_encodeDigit (show a % 4 * 16 + b / 16 < 64 by omega), if_neg (encodeDigit_ne_pad (show b % 16 * 4 + c / 64 < 64 by omega)),
      decodeDigit_encodeDigit (show b % 16 * 4 + c / 64 < 64 by omega),
      if_neg (encodeDigit_ne_pad (show c % 64 < 64 by omega)),
      decodeDigit_encodeDigit (show c % 64 < 64 by omega), hrest, Option.some.injEq,
      List.cons.injEq, and_true]
    omega

/-- Encoded text has no white space. -/
theorem not_isWhitespace_of_mem_encode (bytes : List Nat) (h : ∀ b ∈ bytes, b < 256) :
    ∀ c ∈ encode bytes, c.isWhitespace = false := by
  have hdigit : ∀ n < 64, (encodeDigit n).isWhitespace = false := fun n hn =>
    (encodeDigit_spec hn).2.2
  have hpad : '='.isWhitespace = false := by decide
  fun_induction encode bytes with
  | case1 => simp
  | case2 a =>
    have ha := h a (by simp)
    simp only [List.forall_mem_cons, List.not_mem_nil, false_imp_iff, implies_true, and_true]
    exact ⟨hdigit _ (by omega), hdigit _ (by omega), hpad, hpad⟩
  | case3 a b =>
    have ha := h a (by simp)
    have hb := h b (by simp)
    simp only [List.forall_mem_cons, List.not_mem_nil, false_imp_iff, implies_true, and_true]
    exact ⟨hdigit _ (by omega), hdigit _ (by omega), hdigit _ (by omega), hpad⟩
  | case4 a b c rest ih =>
    have ha := h a (by simp)
    have hb := h b (by simp)
    have hc := h c (by simp)
    simp only [List.forall_mem_cons]
    exact ⟨hdigit _ (by omega), hdigit _ (by omega), hdigit _ (by omega), hdigit _ (by omega),
      ih fun d hd => h d (by simp [hd])⟩

/-- Decoding takes back what encoding made. -/
theorem decode_encode (bytes : List Nat) (h : ∀ b ∈ bytes, b < 256) :
    decode (encode bytes) = some bytes := by
  have hkeep : (encode bytes).filter (fun c => c ≠ '\n' ∧ c ≠ '\r') = encode bytes := by
    refine List.filter_eq_self.2 fun c hc => ?_
    have hw := not_isWhitespace_of_mem_encode bytes h c hc
    by_contra hno
    simp only [decide_eq_true_eq, not_and_or, not_not] at hno
    rcases hno with rfl | rfl <;> exact absurd hw (by decide)
  rw [decode, hkeep, decodeGroups_encode bytes h]

end Lib.Base64
