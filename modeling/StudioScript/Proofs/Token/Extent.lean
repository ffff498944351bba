import StudioScript.Proofs.Token.Spelling

/-! # How far a token extends

A token is decided by its own characters and by the one behind it.  Of a text that is cut off behind
the token, the same token is read; and a line feed among its characters is one of a string, behind a
backslash (`Lexeme.read_staysInside`).
-/

namespace StudioScript

/-! ## Classes of characters -/

theorem takeWhile_of_isPrefix {p : Char → Bool} {front cs : List Char} (cut : front <+: cs)
    (within : (cs.takeWhile p).length ≤ front.length) : front.takeWhile p = cs.takeWhile p := by
  obtain ⟨more, rfl⟩ := cut
  induction front with
  | nil => exact (List.length_eq_zero_iff.mp (Nat.le_zero.mp within)).symm
  | cons c front inductionHypothesis =>
    simp only [List.cons_append, List.takeWhile_cons] at within ⊢
    split
    · next inside =>
      rw [if_pos inside, List.length_cons, List.length_cons] at within
      rw [inductionHypothesis (Nat.le_of_succ_le_succ within)]
    · rfl

theorem dropWhile_isPrefix {p : Char → Bool} {front cs : List Char} (cut : front <+: cs) :
    front.dropWhile p <+: cs.dropWhile p := by
  obtain ⟨more, rfl⟩ := cut
  induction front with
  | nil => exact List.nil_prefix
  | cons c front inductionHypothesis =>
    simp only [List.cons_append, List.dropWhile_cons]
    split
    · exact inductionHypothesis
    · exact List.prefix_append _ more

namespace Lexeme

/-- Whether what is read is read from its own characters, however much of the text stands behind
    them.  It is no line feed, and a line feed among its characters stands behind a backslash. -/
def StaysInside (f : List Char → Except LexicalFault Lexeme) : Prop :=
  ∀ cs lexeme, f cs = .ok lexeme → lexeme.kind ≠ .newline ∧
    (∀ front, front <+: cs → lexeme.tail ≤ front.length → f front = .ok lexeme) ∧
      ('\n' ∈ cs.take lexeme.tail → ['\\', '\n'] <:+: cs.take lexeme.tail)

/-! ## Numbers -/

theorem fraction_of_isPrefix {front cs : List Char} (cut : front <+: cs)
    (within : (fraction cs).length ≤ front.length) : fraction front = fraction cs := by
  obtain ⟨more, rfl⟩ := cut
  rcases front with _ | ⟨c, _ | ⟨d, front⟩⟩
  · exact (List.length_eq_zero_iff.mp (Nat.le_zero.mp within)).symm
  · -- A point alone has no digit behind it, and with one the fraction would be longer.
    have none : fraction [c] = [] := by simp [fraction]
    rw [none]
    unfold fraction at within ⊢
    split
    · next d cs same =>
      rw [same] at within
      split
      · next digit => simp [digit] at within
      · rfl
    · rfl
  · by_cases point : c = '.'
    · subst point
      simp only [List.cons_append, fraction] at within ⊢
      split
      · next digit =>
        rw [if_pos digit, List.length_cons, List.length_cons, List.length_cons,
          List.length_cons] at within
        have digits := takeWhile_of_isPrefix (p := Char.isDigit) (List.prefix_append front more)
          (by omega)
        rw [digits]
      · rfl
    · simp [fraction, point]

theorem unsignedNumeral_of_isPrefix {front cs : List Char} (cut : front <+: cs)
    (within : (unsignedNumeral cs).length ≤ front.length) :
    unsignedNumeral front = unsignedNumeral cs := by
  rw [unsignedNumeral, List.length_append] at within
  have digits : front.takeWhile Char.isDigit = cs.takeWhile Char.isDigit :=
    takeWhile_of_isPrefix cut (by omega)
  have parts := congrArg List.length
    (List.takeWhile_append_dropWhile (p := Char.isDigit) (l := front))
  rw [List.length_append, digits] at parts
  have behind : fraction (front.dropWhile Char.isDigit) = fraction (cs.dropWhile Char.isDigit) :=
    fraction_of_isPrefix (dropWhile_isPrefix cut) (by omega)
  rw [unsignedNumeral, digits, behind, unsignedNumeral]

theorem numeral_of_isPrefix {c : Char} {front cs : List Char} (cut : front <+: cs)
    (within : (numeral (c :: cs)).length ≤ front.length + 1) :
    numeral (c :: front) = numeral (c :: cs) := by
  by_cases minus : c = '-'
  · subst minus
    simp only [numeral, List.length_cons] at within ⊢
    rw [unsignedNumeral_of_isPrefix cut (by omega)]
  · have plain (cs : List Char) : numeral (c :: cs) = unsignedNumeral (c :: cs) := by
      simp [numeral, minus]
    rw [plain] at within
    rw [plain, plain]
    exact unsignedNumeral_of_isPrefix ((List.prefix_cons_inj c).mpr cut) within

/-- A numeral stands at the head of its text. -/
theorem fraction_isPrefix (cs : List Char) : fraction cs <+: cs := by
  unfold fraction
  split
  · next d cs =>
    split
    · exact (List.prefix_cons_inj _).mpr ((List.prefix_cons_inj _).mpr (List.takeWhile_prefix _))
    · exact List.nil_prefix
  · exact List.nil_prefix

theorem unsignedNumeral_isPrefix (cs : List Char) : unsignedNumeral cs <+: cs := by
  have parts := List.takeWhile_append_dropWhile (p := Char.isDigit) (l := cs)
  have behind := (List.prefix_append_right_inj (cs.takeWhile Char.isDigit)).mpr
    (fraction_isPrefix (cs.dropWhile Char.isDigit))
  rwa [parts] at behind

theorem numeral_isPrefix (cs : List Char) : numeral cs <+: cs := by
  unfold numeral
  split
  · next cs => exact (List.prefix_cons_inj _).mpr (unsignedNumeral_isPrefix cs)
  · exact unsignedNumeral_isPrefix cs

theorem mem_unsignedNumeral {c : Char} {cs : List Char} (member : c ∈ unsignedNumeral cs) :
    c = '.' ∨ c.isDigit = true := by
  rcases List.mem_append.mp member with whole | member
  · exact .inr (List.all_eq_true.mp List.all_takeWhile c whole)
  · unfold fraction at member
    split at member
    · next d cs _ =>
      split at member
      · next digit =>
        simp only [List.mem_cons] at member
        rcases member with rfl | rfl | digits
        · exact .inl rfl
        · exact .inr digit
        · exact .inr (List.all_eq_true.mp List.all_takeWhile c digits)
      · cases member
    · cases member

theorem lineFeed_not_mem_numeral (cs : List Char) : '\n' ∉ numeral cs := by
  intro member
  unfold numeral at member
  split at member
  · rcases List.mem_cons.mp member with minus | member
    · exact absurd minus (by decide)
    · exact absurd (mem_unsignedNumeral member) (by decide)
  · exact absurd (mem_unsignedNumeral member) (by decide)

/-- The spelling of a number that is read, and how much of it stands behind its first character. -/
theorem number_eq_ok {c : Char} {cs : List Char} {lexeme : Lexeme}
    (read : number c cs = .ok lexeme) :
    lexeme.tail = (numeral (c :: cs)).length - 1 ∧ lexeme.kind ≠ .newline ∧
      (Number.ofChars? (numeral (c :: cs))).isSome = true := by
  dsimp only [number] at read
  split at read
  · cases read
  · next value written =>
    split at read
    · cases read
      exact ⟨rfl, by simp, by rw [written]; rfl⟩
    · cases read

theorem number_staysInside (c : Char) : StaysInside (number c) := by
  intro cs lexeme read
  obtain ⟨tail, other, _⟩ := number_eq_ok read
  refine ⟨other, fun front cut within => ?_, fun member => ?_⟩
  · have same : numeral (c :: front) = numeral (c :: cs) := numeral_of_isPrefix cut (by omega)
    simpa only [number, same] using read
  · -- The characters behind the first one are the others of the numeral.
    have taken := List.prefix_iff_eq_take.mp (numeral_isPrefix (c :: cs))
    cases length : (numeral (c :: cs)).length with
    | zero =>
      rw [tail, length] at member
      cases member
    | succ n =>
      rw [length, List.take_succ_cons] at taken
      rw [tail, length, Nat.add_sub_cancel] at member
      exact absurd (taken ▸ List.mem_cons_of_mem c member) (lineFeed_not_mem_numeral _)

/-! ## Strings and words -/

theorem stringBody_staysInside {cs value : List Char} {size : Nat}
    (read : stringBody cs = some (value, size)) :
    (∀ front, front <+: cs → size ≤ front.length → stringBody front = some (value, size)) ∧
      ('\n' ∈ cs.take size → ['\\', '\n'] <:+: cs.take size) := by
  induction cs using stringBody.induct generalizing value size with
  | case1 | case3 | case4 => cases read
  | case2 cs =>
    cases read
    refine ⟨?_, by simp⟩
    rintro (_ | ⟨c, front⟩) cut within
    · cases within
    · obtain ⟨rfl, _⟩ := List.cons_prefix_cons.mp cut
      rfl
  | case5 c cs inductionHypothesis =>
    obtain ⟨⟨value', size'⟩, body, same⟩ := Option.map_eq_some_iff.mp read
    cases same
    obtain ⟨reads, escapes⟩ := inductionHypothesis body
    refine ⟨?_, fun member => ?_⟩
    · rintro (_ | ⟨a, _ | ⟨b, front⟩⟩) cut within
      · cases within
      · simp at within
      · obtain ⟨rfl, cut'⟩ := List.cons_prefix_cons.mp cut
        obtain ⟨rfl, behind⟩ := List.cons_prefix_cons.mp cut'
        have read' := reads front behind (by simpa using within)
        simp only [stringBody, read', Option.map_some]
    · simp only [List.take_succ_cons, List.mem_cons] at member ⊢
      rcases member with backslash | rfl | member
      · exact absurd backslash (by decide)
      · exact (List.prefix_append ['\\', '\n'] _).isInfix
      · exact (escapes member).trans (List.suffix_append ['\\', c] _).isInfix
  | case6 c cs notQuote notLineFeed notLast notEscape inductionHypothesis =>
    have notBackslash : c ≠ '\\' := by
      intro same
      cases cs with
      | nil => exact notLast same rfl
      | cons d ds => exact notEscape d ds same rfl
    rw [stringBody_cons notQuote notBackslash notLineFeed] at read
    obtain ⟨⟨value', size'⟩, body, same⟩ := Option.map_eq_some_iff.mp read
    cases same
    obtain ⟨reads, escapes⟩ := inductionHypothesis body
    refine ⟨?_, fun member => ?_⟩
    · rintro (_ | ⟨a, front⟩) cut within
      · cases within
      · obtain ⟨rfl, behind⟩ := List.cons_prefix_cons.mp cut
        have read' := reads front behind (by simpa using within)
        rw [stringBody_cons notQuote notBackslash notLineFeed, read', Option.map_some]
    · simp only [List.take_succ_cons, List.mem_cons] at member ⊢
      rcases member with same | member
      · exact absurd same.symm notLineFeed
      · exact (escapes member).trans (List.suffix_cons c _).isInfix

theorem string_staysInside : StaysInside string := by
  intro cs lexeme read
  unfold string at read
  split at read
  · next value size body =>
    cases read
    obtain ⟨reads, escapes⟩ := stringBody_staysInside body
    refine ⟨by simp, fun front cut within => ?_, escapes⟩
    rw [string, reads front cut within]
  · cases read

theorem wordKind_ne_newline (word : String) : wordKind word ≠ .newline := by
  unfold wordKind
  repeat' split
  all_goals simp

theorem word_staysInside (c : Char) : StaysInside fun cs => .ok (word c cs) := by
  intro cs lexeme read
  cases read
  refine ⟨wordKind_ne_newline _, fun front cut within => ?_, fun member => ?_⟩
  · simp only [word, takeWhile_of_isPrefix cut within]
  · have taken := List.prefix_iff_eq_take.mp (List.takeWhile_prefix (l := cs) continuesWord)
    change '\n' ∈ cs.take (cs.takeWhile continuesWord).length at member
    rw [← taken] at member
    exact absurd (List.all_eq_true.mp List.all_takeWhile _ member) (by decide)

/-! ## All tokens -/

theorem mark_staysInside {kind : TokenKind} (other : kind ≠ .newline) :
    StaysInside fun _ => .ok ⟨kind, 0⟩ := by
  intro cs lexeme read
  cases read
  refine ⟨other, fun _ _ _ => rfl, fun member => ?_⟩
  rw [List.take_zero] at member
  cases member

theorem error_staysInside (fault : LexicalFault) : StaysInside fun _ => .error fault := by
  intro cs lexeme read
  cases read

theorem head?_eq_of_isPrefix {front cs : List Char} (cut : front <+: cs)
    (some : 0 < front.length) : front.head? = cs.head? := by
  obtain ⟨more, rfl⟩ := cut
  cases front with
  | nil => cases some
  | cons c front => rfl

theorem head?_of_isPrefix {c : Char} {front cs : List Char} (cut : front <+: cs)
    (found : front.head? = some c) : cs.head? = some c := by
  cases front with
  | nil => cases found
  | cons d front => exact head?_eq_of_isPrefix cut (Nat.zero_lt_succ _) ▸ found

/-- What depends on an equals sign behind it. -/
theorem equals_staysInside {longer : TokenKind} {shorter : Except LexicalFault Lexeme}
    (other : longer ≠ .newline) (alone : StaysInside fun _ => shorter) :
    StaysInside fun cs => if cs.head? = some '=' then .ok ⟨longer, 1⟩ else shorter := by
  intro cs lexeme read
  dsimp only at read
  split at read
  · next follows =>
    cases read
    cases cs with
    | nil => cases follows
    | cons c cs =>
      cases follows
      refine ⟨other, fun front cut within => ?_, by simp⟩
      cases front with
      | nil => cases within
      | cons d front =>
        obtain ⟨rfl, _⟩ := List.cons_prefix_cons.mp cut
        rfl
  · next none =>
    obtain ⟨inside, reads, escapes⟩ := alone cs lexeme read
    refine ⟨inside, fun front cut within => ?_, escapes⟩
    refine (if_neg fun follows => none ?_).trans (reads front cut within)
    exact head?_of_isPrefix cut follows

theorem withEquals_staysInside {longer shorter : TokenKind} (other : longer ≠ .newline)
    (other' : shorter ≠ .newline) : StaysInside fun cs => .ok (withEquals cs longer shorter) := by
  have split (cs : List Char) : Except.ok (ε := LexicalFault) (withEquals cs longer shorter) =
      if cs.head? = some '=' then .ok ⟨longer, 1⟩ else .ok ⟨shorter, 0⟩ := apply_ite ..
  simp only [split]
  exact equals_staysInside other (mark_staysInside other')

/-- Neither a sign nor a point is a number alone. -/
theorem number_tail_pos {c : Char} {cs : List Char} {lexeme : Lexeme} (mark : c = '-' ∨ c = '.')
    (read : number c cs = .ok lexeme) : 0 < lexeme.tail := by
  obtain ⟨tail, _, written⟩ := number_eq_ok read
  apply Nat.pos_of_ne_zero
  intro none
  have short : (numeral (c :: cs)).length ≤ 1 := by omega
  have among : numeral (c :: cs) = [] ∨ numeral (c :: cs) = [c] := by
    have taken := List.prefix_iff_eq_take.mp (numeral_isPrefix (c :: cs))
    cases length : (numeral (c :: cs)).length with
    | zero => exact .inl (List.length_eq_zero_iff.mp length)
    | succ n =>
      obtain rfl : n = 0 := by omega
      rw [length] at taken
      exact .inr taken
  rcases among with empty | alone
  · rw [empty] at written
    exact absurd written (by decide)
  · rw [alone] at written
    rcases mark with rfl | rfl <;> exact absurd written (by decide)

/-- What decides between a sign or a point and a number is not cut off. -/
theorem number_of_mark_of_isPrefix {c : Char} {front cs : List Char} {lexeme : Lexeme}
    (mark : c = '-' ∨ c = '.') (read : number c cs = .ok lexeme) (cut : front <+: cs)
    (within : lexeme.tail ≤ front.length) :
    number c front = .ok lexeme ∧ front.head? = cs.head? :=
  ⟨(number_staysInside c cs lexeme read).2.1 front cut within,
    head?_eq_of_isPrefix cut (Nat.lt_of_lt_of_le (number_tail_pos mark read) within)⟩

/-- Every token stays inside of its own characters. -/
theorem read_staysInside (c : Char) : StaysInside (read c) := by
  intro cs lexeme reads
  unfold read at reads
  split at reads
  -- The marks that stand alone, and those that an equals sign may follow, come first.
  iterate 9 · exact mark_staysInside (by simp) cs lexeme reads
  iterate 3 · exact withEquals_staysInside (by simp) (by simp) cs lexeme reads
  · exact equals_staysInside (by simp) (error_staysInside _) cs lexeme reads
  · exact string_staysInside cs lexeme reads
  · split at reads
    · next follows =>
      obtain ⟨other, _, escapes⟩ := number_staysInside '-' cs lexeme reads
      refine ⟨other, fun front cut within => ?_, escapes⟩
      obtain ⟨same, head⟩ := number_of_mark_of_isPrefix (.inl rfl) reads cut within
      rw [digitFollows, ← head] at follows
      exact (if_pos follows).trans same
    · cases reads
  · split at reads
    · next follows =>
      obtain ⟨other, _, escapes⟩ := number_staysInside '.' cs lexeme reads
      refine ⟨other, fun front cut within => ?_, escapes⟩
      obtain ⟨same, head⟩ := number_of_mark_of_isPrefix (.inr rfl) reads cut within
      rw [digitFollows, ← head] at follows
      exact (if_pos follows).trans same
    · next alone =>
      obtain ⟨other, same, escapes⟩ := mark_staysInside (by simp) cs lexeme reads
      refine ⟨other, fun front cut within => ?_, escapes⟩
      refine (if_neg fun follows => alone ?_).trans (same front cut within)
      obtain ⟨d, head, digit⟩ := (Option.any_eq_true _ _).mp follows
      rw [digitFollows, head?_of_isPrefix cut head]
      exact digit
  · split at reads
    · next digit =>
      obtain ⟨other, same, escapes⟩ := number_staysInside c cs lexeme reads
      exact ⟨other, fun front cut within =>
        (read_of_isDigit digit _).trans (same front cut within), escapes⟩
    · split at reads
      · next starts =>
        obtain ⟨other, same, escapes⟩ := word_staysInside c cs lexeme reads
        exact ⟨other, fun front cut within =>
          (read_of_startsWord starts _).trans (same front cut within), escapes⟩
      · cases reads

end Lexeme

end StudioScript
