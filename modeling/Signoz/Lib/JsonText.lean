import Mathlib.Data.List.Chain
import Mathlib.Data.List.Infix

/-!
# The JSON text of a map of strings

An object `{"k":"v","k2":"v2"}` is written without blanks, and keys and values are escaped by a
table: a character stands for itself or is written with a backslash first, and quotes and
backslashes are always escaped. So a quote that does not follow a backslash is one of the four
that delimit a key and a value, and the text `":"` after an ordinary character lies between a key
and its value (`separator_of_occurrence`). `keyValue_infix_iff` says where `k":"v` occurs, and
`lone_infix_iff` where a text occurs that lies over no two characters of the syntax.
-/

namespace Lib.JsonText

/-- How characters are written inside a string. -/
structure EscapeTable where
  escape : Char → List Char
  self_or_backslash : ∀ c, escape c = [c] ∨ ∃ d rest, escape c = '\\' :: d :: rest ∧ '"' ∉ rest
  quote_escaped : escape '"' ≠ ['"']
  backslash_escaped : escape '\\' ≠ ['\\']

variable (t : EscapeTable)

def escapeText (s : List Char) : List Char := s.flatMap t.escape

/-- The characters of a text all stand for themselves. -/
def Unescaped (s : List Char) : Prop := ∀ c ∈ s, t.escape c = [c]

instance (s : List Char) : Decidable (Unescaped t s) :=
  List.decidableBAll (fun c => t.escape c = [c]) s

/-- `"key":"value"`. -/
def entryText (e : List Char × List Char) : List Char :=
  '"' :: (escapeText t e.1 ++ '"' :: ':' :: '"' :: (escapeText t e.2 ++ ['"']))

/-- The text of an object after its opening brace. -/
def bodyText : List (List Char × List Char) → List Char
  | [] => ['}']
  | [e] => entryText t e ++ ['}']
  | e :: e' :: es => entryText t e ++ ',' :: bodyText (e' :: es)

def objectText (es : List (List Char × List Char)) : List Char := '{' :: bodyText t es

/-! ## Escaped strings -/

variable {t} {s : List Char}

theorem Unescaped.escapeText (h : Unescaped t s) : escapeText t s = s := by
  induction s with
  | nil => rfl
  | cons c s ih =>
    rw [JsonText.escapeText, List.flatMap_cons, h c List.mem_cons_self]
    exact congrArg (c :: ·) (ih fun d hd => h d (List.mem_cons_of_mem c hd))

theorem Unescaped.noBackslash (h : Unescaped t s) : '\\' ∉ s :=
  fun hmem => t.backslash_escaped (h _ hmem)

theorem Unescaped.noQuote (h : Unescaped t s) : '"' ∉ s :=
  fun hmem => t.quote_escaped (h _ hmem)

/-- Inside a string every quote follows a backslash. -/
theorem backslash_before_quote {s x y : List Char} (h : escapeText t s = x ++ '"' :: y) :
    ∃ x', x = x' ++ ['\\'] := by
  induction s generalizing x with
  | nil => simp [escapeText] at h
  | cons c s ih =>
    rw [escapeText, List.flatMap_cons] at h
    rcases t.self_or_backslash c with hc | ⟨d, rest, hc, hrest⟩
    · rw [hc] at h
      cases x with
      | nil =>
        obtain ⟨rfl, -⟩ := List.cons.inj h
        exact absurd hc t.quote_escaped
      | cons b x =>
        obtain ⟨rfl, htail⟩ := List.cons.inj h
        obtain ⟨x', rfl⟩ := ih htail
        exact ⟨c :: x', rfl⟩
    · rw [hc] at h
      match x with
      | [] => exact absurd (List.cons.inj h).1 (by decide)
      | [b] =>
        obtain ⟨rfl, -⟩ := List.cons.inj h
        exact ⟨[], rfl⟩
      | b :: b' :: x =>
        have htail : rest ++ escapeText t s = x ++ '"' :: y :=
          (List.cons.inj (List.cons.inj h).2).2
        obtain ⟨rfl, -⟩ := List.cons.inj h
        rcases List.append_eq_append_iff.1 htail with ⟨z, rfl, hz⟩ | ⟨z, rfl, hz⟩
        · obtain ⟨x', rfl⟩ := ih hz
          exact ⟨'\\' :: b' :: (rest ++ x'), by simp⟩
        · cases z with
          | nil =>
            obtain ⟨x', hx'⟩ := ih (x := []) hz.symm
            exact absurd hx' (by simp)
          | cons q z =>
            obtain ⟨rfl, -⟩ := List.cons.inj hz
            exact absurd (by simp) hrest

/-- A quote after an ordinary character is not inside the string at the front: it closes the
string or lies behind it. -/
theorem quote_split {s S x rest : List Char} {c : Char} (hc : c ≠ '\\')
    (h : escapeText t s ++ '"' :: S = x ++ c :: '"' :: rest) :
    (x ++ [c] = escapeText t s ∧ rest = S) ∨
      ∃ q, x ++ [c] = escapeText t s ++ '"' :: q ∧ S = q ++ '"' :: rest := by
  have h' : escapeText t s ++ '"' :: S = (x ++ [c]) ++ '"' :: rest := by simpa using h
  rcases List.append_eq_append_iff.1 h' with ⟨z, hx, hz⟩ | ⟨z, hs, hz⟩
  · cases z with
    | nil => exact Or.inl ⟨by simpa using hx, (List.cons.inj hz).2.symm⟩
    | cons q z =>
      obtain ⟨rfl, hS⟩ := List.cons.inj hz
      exact Or.inr ⟨z, hx, hS⟩
  · cases z with
    | nil => exact Or.inl ⟨by simpa using hs.symm, (List.cons.inj hz).2⟩
    | cons q z =>
      obtain ⟨rfl, -⟩ := List.cons.inj hz
      obtain ⟨x', hx'⟩ := backslash_before_quote hs
      exact absurd (List.append_inj_right' hx' rfl) (by simpa using hc)

/-! ## The separator -/

/-- The characters that may stand before a quote outside of strings. -/
def isStructural (c : Char) : Bool := c = '\\' || c = '"' || c = ':' || c = ',' || c = '{'

/-- `x` ends behind a key of the object and `y` starts with its value. Before the key there is
nothing or the comma of the entry before it, and behind the value a comma or the closing brace. -/
def AtSeparator (t : EscapeTable) (es : List (List Char × List Char)) (x y : List Char) : Prop :=
  ∃ e ∈ es, (∃ x', x = x' ++ '"' :: escapeText t e.1 ∧ (x' = [] ∨ ∃ z, x' = z ++ [','])) ∧
    ∃ c y', y = escapeText t e.2 ++ '"' :: c :: y' ∧ (c = ',' ∨ c = '}')

theorem AtSeparator.mono {es es' : List (List Char × List Char)} {x y : List Char}
    (h : AtSeparator t es x y) (hes : ∀ e ∈ es, e ∈ es') : AtSeparator t es' x y := by
  obtain ⟨e, he, hsep⟩ := h
  exact ⟨e, hes e he, hsep⟩

variable {es : List (List Char × List Char)}

/-- A separator of the entries behind another one. -/
theorem AtSeparator.behind {x y : List Char} (h : AtSeparator t es x y) (z : List Char) :
   AtSeparator t es (z ++ ',' :: x) y := by
  obtain ⟨e, he, ⟨x', rfl, hx⟩, hy⟩ := h
  refine ⟨e, he, ⟨z ++ ',' :: x', by simp, .inr ?_⟩, hy⟩
  rcases hx with rfl | ⟨z', rfl⟩
  · exact ⟨z, rfl⟩
  · exact ⟨z ++ ',' :: z', by simp⟩

theorem eq_of_ends {x z : List Char} {c d : Char} (h : x ++ [c] = z ++ [d]) : c = d :=
  (List.cons.inj (List.append_inj_right' h rfl)).1

theorem isStructural_false {c : Char} (h : isStructural c = false) :
    c ≠ '\\' ∧ c ≠ '"' ∧ c ≠ ':' ∧ c ≠ ',' ∧ c ≠ '{' := by
  simpa [isStructural, and_assoc] using h

/-- The separator of an entry is the only one in it; any other occurrence lies behind it. -/
theorem occurrence_in_entry {c d : Char} (hc : isStructural c = false) (hd : d = ',' ∨ d = '}')
    {e : List Char × List Char} {R x y : List Char}
    (h : entryText t e ++ d :: R = x ++ c :: '"' :: ':' :: '"' :: y) :
    AtSeparator t [e] (x ++ [c]) y ∨
      ∃ z, x ++ [c] = entryText t e ++ z ∧ d :: R = z ++ '"' :: ':' :: '"' :: y := by
  obtain ⟨hback, hquote, hcolon, -, -⟩ := isStructural_false hc
  have hentry : entryText t e ++ d :: R = '"' :: (escapeText t e.1 ++ '"' :: ':' :: '"' ::
      (escapeText t e.2 ++ '"' :: d :: R)) := by simp [entryText]
  rw [hentry] at h
  cases x with
  | nil => exact absurd (List.cons.inj h).1.symm hquote
  | cons b x =>
    obtain ⟨rfl, hkey⟩ := List.cons.inj h
    rcases quote_split hback hkey with ⟨hx, hrest⟩ | ⟨q, hx, hrest⟩
    · -- the occurrence follows the key
      have hy : y = escapeText t e.2 ++ '"' :: d :: R :=
        (List.cons.inj (List.cons.inj hrest).2).2
      have hx : '"' :: x ++ [c] = [] ++ '"' :: escapeText t e.1 := congrArg ('"' :: ·) hx
      exact Or.inl ⟨e, List.mem_singleton_self e, ⟨[], hx, .inl rfl⟩, d, R, hy, hd⟩
    · match q with
      | [] => exact absurd (eq_of_ends hx) hquote
      | [q₁] =>
        obtain ⟨rfl, -⟩ := List.cons.inj hrest
        exact absurd (eq_of_ends (z := escapeText t e.1 ++ ['"']) (by simpa using hx)) hcolon
      | q₁ :: q₂ :: q =>
        obtain ⟨rfl, hrest'⟩ := List.cons.inj hrest
        obtain ⟨rfl, hvalue⟩ := List.cons.inj hrest'
        rcases List.eq_nil_or_concat q with rfl | ⟨q', b, rfl⟩
        · exact absurd
            (eq_of_ends (z := escapeText t e.1 ++ ['"', ':']) (by simpa using hx)) hquote
        · have hb : c = b := eq_of_ends (z := escapeText t e.1 ++ '"' :: ':' :: '"' :: q')
            (by simpa using hx)
          subst hb
          have hvalue' : escapeText t e.2 ++ '"' :: d :: R =
              q' ++ c :: '"' :: ':' :: '"' :: y := by simpa using hvalue
          rcases quote_split hback hvalue' with ⟨-, hR⟩ | ⟨z, hq, hz⟩
          · -- what follows the value is no colon
            have hcolon : ':' = d := (List.cons.inj hR).1
            subst hcolon
            exact absurd hd (by decide)
          · refine Or.inr ⟨z, ?_, hz⟩
            rw [List.cons_append, hx, List.concat_eq_append, hq]
            simp [entryText]

/-- An ordinary character with `":"` behind it is the last character of a key, and the value of
that key follows. -/
theorem separator_of_occurrence {c : Char} (hc : isStructural c = false) :
    ∀ (es : List (List Char × List Char)) (x y : List Char),
      bodyText t es = x ++ c :: '"' :: ':' :: '"' :: y → AtSeparator t es (x ++ [c]) y
  | [], x, y, h => by
    match x with
    | [] => exact absurd (List.cons.inj h).2 (by simp)
    | b :: x => exact absurd (List.cons.inj h).2 (by simp)
  | [e], x, y, h => by
    rcases occurrence_in_entry hc (.inr rfl) h with hsep | ⟨z, -, hz⟩
    · exact hsep
    · match z with
      | [] => exact absurd (List.cons.inj hz).1 (by decide)
      | b :: z => exact absurd (List.cons.inj hz).2 (by simp)
  | e :: e' :: es, x, y, h => by
    rcases occurrence_in_entry hc (.inl rfl) h with hsep | ⟨z, hx, hz⟩
    · exact hsep.mono (by simp)
    · match z with
      | [] => exact absurd (List.cons.inj hz).1 (by decide)
      | b :: z =>
        obtain ⟨rfl, hbody⟩ := List.cons.inj hz
        rcases List.eq_nil_or_concat z with rfl | ⟨z', d, rfl⟩
        · exact absurd (eq_of_ends hx) (isStructural_false hc).2.2.2.1
        · have hd : c = d := eq_of_ends (z := entryText t e ++ ',' :: z') (by simpa using hx)
          subst hd
          have hsep := separator_of_occurrence hc (e' :: es) z' y (by simpa using hbody)
          rw [hx]
          simpa using (hsep.behind (entryText t e)).mono fun a ha => List.mem_cons_of_mem e ha

/-! ## Where `k":"v` occurs -/

theorem prefix_escapeText_iff {v s : List Char} (hv : Unescaped t v) :
    v <+: escapeText t s ↔ v <+: s := by
  induction v generalizing s with
  | nil => simp
  | cons c v ih =>
    have hc := hv c List.mem_cons_self
    have ih' := fun s => ih (s := s) fun d hd => hv d (List.mem_cons_of_mem c hd)
    cases s with
    | nil => simp [escapeText]
    | cons d s =>
      rw [escapeText, List.flatMap_cons]
      rcases t.self_or_backslash d with hd | ⟨d', rest, hd, -⟩
      · rw [hd, List.singleton_append, List.cons_prefix_cons, List.cons_prefix_cons]
        exact and_congr_right fun _ => ih' s
      · -- an escaped character starts with a backslash, which `v` does not have
        rw [hd, List.cons_append, List.cons_prefix_cons, List.cons_prefix_cons]
        constructor
        · rintro ⟨rfl, -⟩
          exact absurd hc t.backslash_escaped
        · rintro ⟨rfl, -⟩
          rw [hc] at hd
          exact absurd hd (by simp)

theorem entryText_within_body {e : List Char × List Char} (he : e ∈ es) :
   entryText t e <:+: bodyText t es := by
  induction es with
  | nil => exact absurd he List.not_mem_nil
  | cons e₀ es ih =>
    cases es with
    | nil =>
      obtain rfl := List.mem_singleton.1 he
      exact (List.prefix_append _ _).isInfix
    | cons e' es =>
      rcases List.mem_cons.1 he with rfl | he
      · exact (List.prefix_append _ _).isInfix
      · exact (ih he).trans
          ((List.suffix_cons ',' _).trans (List.suffix_append (entryText t e₀) _)).isInfix

theorem entryText_within {e : List Char × List Char} (he : e ∈ es) :
   entryText t e <:+: objectText t es :=
  (entryText_within_body he).trans (List.suffix_cons '{' _).isInfix

/-- No two characters of the JSON syntax follow each other in the text, and none is at an end. -/
def Lone (isSyntax : Char → Bool) (w : List Char) : Prop :=
  ('"' :: w ++ ['"']).IsChain fun a b => isSyntax a = false ∨ isSyntax b = false

/-- No quote is at the end of the text, or before one of the characters that follow a value. -/
def Unclosed (w : List Char) : Prop :=
  (w ++ ['"']).IsChain fun a b => a ≠ '"' ∨ b ∉ ['"', ',', '}']

section Lone

variable {isSyntax : Char → Bool} {w : List Char}

theorem Lone.pair (h : Lone isSyntax w) {a b : Char} (hab : [a, b] <:+: '"' :: w ++ ['"']) :
    isSyntax a = false ∨ isSyntax b = false := by
  have hpair := h.infix hab
  rwa [List.isChain_pair] at hpair

variable (hquote : isSyntax '"' = true)

include hquote in
/-- Such a text ends with an ordinary character. -/
theorem Lone.last (h : Lone isSyntax w) : ∃ k c, w = k ++ [c] ∧ isSyntax c = false := by
  rcases List.eq_nil_or_concat w with rfl | ⟨k, c, rfl⟩
  · simpa [hquote] using h.pair (a := '"') (b := '"') ⟨[], [], rfl⟩
  · refine ⟨k, c, by simp, ?_⟩
    exact (h.pair (a := c) (b := '"') ⟨'"' :: k, [], by simp⟩).resolve_right (by simp [hquote])

include hquote in
/-- It does not lie over the quote before a key. -/
theorem suffix_of_suffix_quote (hw : Lone isSyntax w) {x z : List Char}
    (hx : ∀ x' c, x = x' ++ [c] → isSyntax c = true) (h : w <:+ x ++ '"' :: z) : w <:+ z := by
  obtain ⟨p, hp⟩ := h
  rcases List.append_eq_append_iff.1 hp with ⟨u, hu, rfl⟩ | ⟨u, hu, huz⟩
  · -- the text would begin at the quote or before it
    rcases List.eq_nil_or_concat u with rfl | ⟨u, c, rfl⟩
    · have hpair := hw.pair (a := '"') (b := '"') ⟨[], z ++ ['"'], by simp⟩
      simp [hquote] at hpair
    · have hc := hx (p ++ u) c (by simpa using hu)
      have hpair := hw.pair (a := c) (b := '"') ⟨'"' :: u, z ++ ['"'], by simp⟩
      simp [hquote, hc] at hpair
  · cases u with
    | nil =>
      obtain rfl : '"' :: z = w := huz
      have hpair := hw.pair (a := '"') (b := '"') ⟨[], z ++ ['"'], by simp⟩
      simp [hquote] at hpair
    | cons b u => exact ⟨u, (List.cons.inj huz).2.symm⟩

end Lone

/-- A text without such a quote does not lie over the one behind a value. -/
theorem prefix_of_prefix_quote {v s y : List Char} {c : Char} (hv : Unclosed v)
    (hc : c = ',' ∨ c = '}') (h : v <+: s ++ '"' :: c :: y) : v <+: s := by
  have hnot : ∀ a ∈ ['"', ',', '}'], ¬ ['"', a] <:+: v ++ ['"'] := by
    intro a ha hinfix
    exact (List.isChain_pair.1 ( hv.infix hinfix)).elim (fun h => h rfl) (fun h => h ha)
  obtain ⟨p, hp⟩ := h
  rcases List.append_eq_append_iff.1 hp with ⟨u, hs, -⟩ | ⟨u, rfl, hu⟩
  · exact ⟨u, hs.symm⟩
  · match u with
    | [] => simp
    | [b] =>
      obtain ⟨rfl, -⟩ := List.cons.inj hu
      exact absurd ⟨s, [], by simp⟩ (hnot '"' (by simp))
    | b :: b' :: u =>
      obtain ⟨rfl, hrest⟩ := List.cons.inj hu
      obtain ⟨rfl, -⟩ := List.cons.inj hrest
      exact absurd ⟨s, u ++ ['"'], by simp⟩ (hnot c (by rcases hc with rfl | rfl <;> simp))

/-- `k":"v` occurs in an object exactly when some key, as it is written, ends with `k` and its
value, as it is written, starts with `v`. -/
theorem keyValue_infix_iff {k v : List Char} (hk : Lone isStructural k) (hv : Unclosed v) :
    (k ++ '"' :: ':' :: '"' :: v) <:+: objectText t es ↔
      ∃ e ∈ es, k <:+ escapeText t e.1 ∧ v <+: escapeText t e.2 := by
  constructor
  · rintro ⟨x, y, h⟩
    obtain ⟨k', c, rfl, hc⟩ := hk.last rfl
    have hobject : '{' :: bodyText t es = (x ++ k') ++ c :: '"' :: ':' :: '"' :: (v ++ y) := by
      rw [← objectText, ← h]
      simp
    obtain ⟨z, hz⟩ : ∃ z, x ++ k' = '{' :: z := by
      cases hz : x ++ k' with
      | nil =>
        rw [hz] at hobject
        exact absurd (List.cons.inj hobject).1.symm (isStructural_false hc).2.2.2.2
      | cons b z =>
        rw [hz] at hobject
        exact ⟨z, by rw [← (List.cons.inj hobject).1]⟩
    rw [hz] at hobject
    obtain ⟨e, he, ⟨x', hx', hbefore⟩, d, y', hy', hd⟩ :=
      separator_of_occurrence hc es z (v ++ y) (List.cons.inj hobject).2
    -- before the key there is the opening brace or a comma
    have hbefore : ∀ a b, '{' :: x' = a ++ [b] → isStructural b = true := by
      intro a b hab
      rcases hbefore with rfl | ⟨a', rfl⟩
      · obtain rfl : '{' = b := eq_of_ends (x := []) hab
        rfl
      · obtain rfl : ',' = b := eq_of_ends (x := '{' :: a') hab
        rfl
    refine ⟨e, he, suffix_of_suffix_quote rfl hk hbefore ⟨x, ?_⟩,
      prefix_of_prefix_quote hv hd ⟨y, hy'⟩⟩
    calc x ++ (k' ++ [c]) = (x ++ k') ++ [c] := by simp
      _ = '{' :: (z ++ [c]) := by rw [hz]; rfl
      _ = '{' :: x' ++ '"' :: escapeText t e.1 := by rw [hx']; rfl
  · rintro ⟨e, he, ⟨x, hx⟩, y, hy⟩
    refine List.IsInfix.trans ⟨'"' :: x, y ++ ['"'], ?_⟩ (entryText_within he)
    rw [entryText, ← hx, ← hy]
    simp

/-! ## Where a text occurs that has no syntax in it -/

section Occurrence

variable {w : List Char}

/-- The characters of the syntax of an object. -/
def isSyntax (c : Char) : Bool := c = '"' || c = ':' || c = ',' || c = '{' || c = '}'

theorem Lone.infix_of_cons (hw : Lone isSyntax w) {c : Char} (hc : isSyntax c = true)
    {s : List Char} (h : w <:+: c :: s) : w <:+: s := by
  rcases List.infix_cons_iff.1 h with ⟨p, hp⟩ | h
  · cases w with
    | nil => simp
    | cons b w =>
      obtain ⟨rfl, -⟩ := List.cons.inj hp
      have hpair := hw.pair (a := '"') (b := b) ⟨[], w ++ ['"'], by simp⟩
      rw [hc] at hpair
      cases hpair <;> contradiction
  · exact h

/-- It lies on one side of two characters of the syntax that follow each other. -/
theorem Lone.infix_of_append (hw : Lone isSyntax w) {c d : Char} (hc : isSyntax c = true)
    (hd : isSyntax d = true) {s rest : List Char} (h : w <:+: s ++ c :: d :: rest) :
    w <:+: s ∨ w <:+: rest := by
  induction s with
  | nil => exact .inr (hw.infix_of_cons hd (hw.infix_of_cons hc h))
  | cons b s ih =>
    rcases List.infix_cons_iff.1 h with hprefix | h
    · left
      obtain ⟨p, hp⟩ := hprefix
      have hp : w ++ p = (b :: s) ++ c :: d :: rest := hp
      rcases List.append_eq_append_iff.1 hp with ⟨u, hu, -⟩ | ⟨u, rfl, hu⟩
      · exact ⟨[], u, by simp [hu]⟩
      · match u with
        | [] => simp
        | [a] =>
          obtain ⟨rfl, -⟩ := List.cons.inj hu
          have hpair := hw.pair (a := c) (b := '"') ⟨'"' :: b :: s, [], by simp⟩
          rw [hc] at hpair
          cases hpair <;> contradiction
        | a :: a' :: u =>
          obtain ⟨rfl, hrest⟩ := List.cons.inj hu
          obtain ⟨rfl, -⟩ := List.cons.inj hrest
          have hpair := hw.pair (a := c) (b := d) ⟨'"' :: b :: s, u ++ ['"'], by simp⟩
          rw [hc, hd] at hpair
          cases hpair <;> contradiction
    · exact (ih h).imp (fun h => h.trans (List.suffix_cons b s).isInfix) id

theorem Lone.infix_of_entryText (hw : Lone isSyntax w) {c : Char} (hc : isSyntax c = true)
    {e : List Char × List Char} {rest : List Char} (h : w <:+: entryText t e ++ c :: rest) :
    w <:+: escapeText t e.1 ∨ w <:+: escapeText t e.2 ∨ w <:+: rest := by
  have hentry : entryText t e ++ c :: rest = '"' :: (escapeText t e.1 ++ '"' :: ':' ::
      ('"' :: (escapeText t e.2 ++ '"' :: c :: rest))) := by simp [entryText]
  rw [hentry] at h
  rcases hw.infix_of_append rfl rfl (hw.infix_of_cons rfl h) with hkey | h
  · exact .inl hkey
  · exact .inr (hw.infix_of_append rfl hc (hw.infix_of_cons rfl h))

/-- Such a text occurs in an object exactly when it occurs in a key or in a value, as these are
written. -/
theorem lone_infix_iff (hw : Lone isSyntax w) {es : List (List Char × List Char)} :
    w <:+: objectText t es ↔
      ∃ e ∈ es, w <:+: escapeText t e.1 ∨ w <:+: escapeText t e.2 := by
  have hne : w ≠ [] := by
    obtain ⟨k, c, rfl, -⟩ := hw.last rfl
    simp
  constructor
  · intro h
    have h : w <:+: bodyText t es := hw.infix_of_cons rfl h
    induction es with
    | nil => exact absurd (List.infix_nil.1 (hw.infix_of_cons rfl h)) hne
    | cons e es ih =>
      have hrest : w <:+: escapeText t e.1 ∨ w <:+: escapeText t e.2 ∨
          (w <:+: bodyText t es ∧ es ≠ []) := by
        cases es with
        | nil =>
          refine (hw.infix_of_entryText (c := '}') rfl h).imp_right (Or.imp_right fun h => ?_)
          exact absurd (List.infix_nil.1 h) hne
        | cons e' es =>
          exact (hw.infix_of_entryText (c := ',') rfl h).imp_right
            (Or.imp_right fun h => ⟨h, by simp⟩)
      rcases hrest with hkey | hvalue | ⟨hrest, -⟩
      · exact ⟨e, List.mem_cons_self, .inl hkey⟩
      · exact ⟨e, List.mem_cons_self, .inr hvalue⟩
      · obtain ⟨e', he', hin⟩ := ih (hrest.trans (List.suffix_cons '{' _).isInfix) hrest
        exact ⟨e', List.mem_cons_of_mem e he', hin⟩
  · rintro ⟨e, he, hin⟩
    refine List.IsInfix.trans ?_ (entryText_within he)
    rw [entryText]
    rcases hin with hkey | hvalue
    · exact hkey.trans ⟨['"'], '"' :: ':' :: '"' :: (escapeText t e.2 ++ ['"']), by simp⟩
    · exact hvalue.trans ⟨'"' :: (escapeText t e.1 ++ ['"', ':', '"']), ['"'], by simp⟩

end Occurrence

end Lib.JsonText
