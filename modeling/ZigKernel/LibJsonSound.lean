import ZigKernel.LibJson
import Mathlib.Data.List.TakeWhile

/-! The parser and the grammar agree: the parser reads a text and returns a value exactly when the text is a
document that means it. So a text means at most one value. -/

namespace Json

variable {n : Nat} {bs rest t s w : List UInt8}

/-! ### White space, literals and numbers -/

theorem skipWs_spec (bs : List UInt8) : ∃ w, Ws w ∧ bs = w ++ skipWs bs :=
  ⟨bs.takeWhile isWs, fun _ hb => List.mem_takeWhile_imp hb, List.takeWhile_append_dropWhile.symm⟩

theorem skipWs_append {b : UInt8} (hw : Ws w) (hb : isWs b = false) : skipWs (w ++ b :: rest) = b :: rest := by
  rw [skipWs, List.dropWhile_append_of_pos hw, List.dropWhile_cons_of_neg (by simp [hb])]

theorem expect_eq_some {b : UInt8} (h : expect b bs = some rest) : ∃ w, Ws w ∧ bs = w ++ b :: rest := by
  obtain ⟨w, hw, hbs⟩ := skipWs_spec bs
  rw [expect] at h
  cases hskip : skipWs bs with
  | nil =>
      rw [hskip] at h
      cases h
  | cons c tail =>
      rw [hskip] at h hbs
      simp only at h
      split_ifs at h with hc
      cases h
      exact ⟨w, hw, hc ▸ hbs⟩

theorem expect_self {b : UInt8} (hw : Ws w) (hb : isWs b = false) : expect b (w ++ b :: rest) = some rest := by
  rw [expect, skipWs_append hw hb]
  exact if_pos rfl

theorem expect_other {b c : UInt8} (hw : Ws w) (hc : isWs c = false) (hne : c ≠ b) :
    expect b (w ++ c :: rest) = none := by
  rw [expect, skipWs_append hw hc]
  exact if_neg hne

theorem literal_eq_some : literal t bs = some rest ↔ bs = t ++ rest := by
  rw [literal]
  constructor
  · intro h
    split_ifs at h with hprefix
    obtain ⟨tail, rfl⟩ := hprefix
    rw [List.drop_left] at h
    cases h
    rfl
  · rintro rfl
    rw [if_pos (List.prefix_append _ _), List.drop_left]

/-- What follows does not go on with such a byte. -/
def Stops (p : UInt8 → Bool) (rest : List UInt8) : Prop := ∀ b tail, rest = b :: tail → p b = false

theorem digits_eq_some {ds : List UInt8} :
    digits bs = some (ds, rest) ↔ bs = ds ++ rest ∧ Digits ds ∧ Stops isDigit rest := by
  rw [digits]
  constructor
  · intro h
    split_ifs at h with hne
    cases h
    refine ⟨List.takeWhile_append_dropWhile.symm, ⟨hne, fun _ hb => List.mem_takeWhile_imp hb⟩, fun b tail hrest => ?_⟩
    have hhead := List.head?_dropWhile_not isDigit bs
    rw [hrest] at hhead
    simpa using hhead
  · rintro ⟨rfl, ⟨hne, hds⟩, hstops⟩
    have hbehind : rest.takeWhile isDigit = [] ∧ rest.dropWhile isDigit = rest := by
      cases rest with
      | nil => exact ⟨rfl, rfl⟩
      | cons b tail =>
          have hb := hstops b tail rfl
          exact ⟨List.takeWhile_cons_of_neg (by simp [hb]), List.dropWhile_cons_of_neg (by simp [hb])⟩
    rw [List.takeWhile_append_of_pos hds, List.dropWhile_append_of_pos hds, hbehind.1, hbehind.2, List.append_nil,
      if_neg hne]

/-- An optional sign. -/
theorem sign_spec (allowed bs : List UInt8) :
    bs = (sign allowed bs).1 ++ (sign allowed bs).2 ∧
      ((sign allowed bs).1 = [] ∨ ∃ b ∈ allowed, (sign allowed bs).1 = [b]) := by
  unfold sign
  cases bs with
  | nil => exact ⟨rfl, Or.inl rfl⟩
  | cons b rest =>
      simp only
      by_cases hb : b ∈ allowed
      · rw [if_pos hb]
        exact ⟨rfl, Or.inr ⟨b, hb, rfl⟩⟩
      · rw [if_neg hb]
        exact ⟨rfl, Or.inl rfl⟩

theorem sign_append {allowed : List UInt8} (hs : s = [] ∨ ∃ b ∈ allowed, s = [b])
    (hrest : ∀ b tail, rest = b :: tail → b ∉ allowed) : sign allowed (s ++ rest) = (s, rest) := by
  rcases hs with rfl | ⟨b, hb, rfl⟩
  · cases rest with
    | nil => rfl
    | cons b tail => exact if_neg (hrest b tail rfl)
  · exact if_pos hb

theorem zero_digit : isDigit zero = true := by decide

theorem intPart_sound (h : intPart bs = some (t, rest)) : bs = t ++ rest ∧ IsInt t := by
  unfold intPart at h
  cases bs with
  | nil => cases h
  | cons b tail =>
      simp only at h
      split_ifs at h with hb
      · cases h
        exact ⟨hb ▸ rfl, Or.inl rfl⟩
      · obtain ⟨hbs, hds, -⟩ := digits_eq_some.mp h
        refine ⟨hbs, Or.inr ⟨hds, fun hhead => hb ?_⟩⟩
        cases t with
        | nil => cases hhead
        | cons c ds =>
            cases hhead
            exact (List.cons.inj hbs).1

theorem intPart_complete (h : IsInt t) (hstops : Stops isDigit rest) : intPart (t ++ rest) = some (t, rest) := by
  rcases h with rfl | ⟨hds, hhead⟩
  · simp [intPart]
  · have hrun := digits_eq_some.mpr ⟨rfl, hds, hstops⟩
    cases t with
    | nil => exact absurd rfl hds.1
    | cons b ds =>
        have hb : b ≠ zero := fun hb => hhead (congrArg some hb)
        exact (if_neg hb).trans hrun

theorem IsInt.head (h : IsInt t) : ∃ b ds, t = b :: ds ∧ isDigit b = true := by
  rcases h with rfl | ⟨⟨hne, hds⟩, -⟩
  · exact ⟨zero, [], rfl, zero_digit⟩
  · cases t with
    | nil => exact absurd rfl hne
    | cons b ds => exact ⟨b, ds, rfl, hds b List.mem_cons_self⟩

theorem fracPart_sound (h : fracPart bs = some (t, rest)) : bs = t ++ rest ∧ IsFrac t := by
  unfold fracPart at h
  cases bs with
  | nil =>
      cases h
      exact ⟨rfl, Or.inl rfl⟩
  | cons b tail =>
      simp only at h
      split_ifs at h with hb
      · obtain ⟨⟨ds, tail'⟩, hrun, heq⟩ := Option.map_eq_some_iff.mp h
        cases heq
        obtain ⟨rfl, hds, -⟩ := digits_eq_some.mp hrun
        exact ⟨hb ▸ rfl, Or.inr ⟨ds, rfl, hds⟩⟩
      · cases h
        exact ⟨rfl, Or.inl rfl⟩

theorem fracPart_complete (h : IsFrac t) (hstops : Stops isDigit rest) (hdot : Stops (· == dot) rest) :
    fracPart (t ++ rest) = some (t, rest) := by
  rcases h with rfl | ⟨ds, rfl, hds⟩
  · cases rest with
    | nil => rfl
    | cons b tail => exact if_neg (by simpa using hdot b tail rfl)
  · simp [fracPart, digits_eq_some.mpr ⟨rfl, hds, hstops⟩]

theorem expPart_sound (h : expPart bs = some (t, rest)) : bs = t ++ rest ∧ IsExponent t := by
  unfold expPart at h
  cases bs with
  | nil =>
      cases h
      exact ⟨rfl, Or.inl rfl⟩
  | cons b tail =>
      simp only at h
      split_ifs at h with hb
      · obtain ⟨⟨ds, tail'⟩, hrun, heq⟩ := Option.map_eq_some_iff.mp h
        cases heq
        obtain ⟨htail, hds, -⟩ := digits_eq_some.mp hrun
        obtain ⟨hsplit, hsign⟩ := sign_spec [plus, minus] tail
        refine ⟨?_, Or.inr ⟨b, _, ds, rfl, hb, hsign, hds⟩⟩
        rw [List.cons_append, List.append_assoc, ← htail, ← hsplit]
      · cases h
        exact ⟨rfl, Or.inl rfl⟩

theorem Digits.head {ds : List UInt8} (h : Digits ds) : ∃ b tail, ds = b :: tail ∧ isDigit b = true := by
  cases ds with
  | nil => exact absurd rfl h.1
  | cons b tail => exact ⟨b, tail, rfl, h.2 b List.mem_cons_self⟩

/-- A digit is no sign. -/
theorem not_sign_of_digit {b : UInt8} (h : isDigit b = true) : b ∉ [plus, minus] := by
  intro hb
  simp only [List.mem_cons, List.not_mem_nil, or_false] at hb
  rcases hb with rfl | rfl <;> exact absurd h (by decide)

theorem expPart_complete (h : IsExponent t) (hstops : Stops isDigit rest) (hexp : Stops isExp rest) :
    expPart (t ++ rest) = some (t, rest) := by
  rcases h with rfl | ⟨e, s, ds, rfl, he, hs, hds⟩
  · cases rest with
    | nil => rfl
    | cons b tail => exact if_neg (by simp [hexp b tail rfl])
  · have hsign : sign [plus, minus] (s ++ (ds ++ rest)) = (s, ds ++ rest) := by
      refine sign_append hs fun b tail heq => ?_
      obtain ⟨c, ds', rfl, hc⟩ := hds.head
      cases heq
      exact not_sign_of_digit hc
    rw [List.cons_append, List.append_assoc]
    refine (if_pos he).trans ?_
    rw [hsign, digits_eq_some.mpr ⟨rfl, hds, hstops⟩]
    rfl

/-- A byte that may go on with a number. -/
def goesOn (b : UInt8) : Bool := isDigit b || b == dot || isExp b

theorem Stops.mono {p q : UInt8 → Bool} (h : Stops q rest) (hpq : ∀ b, q b = false → p b = false) : Stops p rest :=
  fun b tail hrest => hpq b (h b tail hrest)

theorem Stops.append {p : UInt8 → Bool} (h : Stops p rest) (ht : Stops p t) : Stops p (t ++ rest) := by
  cases t with
  | nil => exact h
  | cons b tail =>
      intro c tail' heq
      cases heq
      exact ht b tail rfl

theorem goesOn_eq_false {b : UInt8} : goesOn b = false ↔ isDigit b = false ∧ (b == dot) = false ∧ isExp b = false := by
  rw [goesOn, Bool.or_eq_false_iff, Bool.or_eq_false_iff, and_assoc]

theorem number_sound (h : number bs = some (t, rest)) : bs = t ++ rest ∧ IsNumber t := by
  simp only [number, Option.bind_eq_bind, Option.bind_eq_some_iff] at h
  obtain ⟨⟨int, rest₁⟩, hint, ⟨frac, rest₂⟩, hfrac, ⟨exp, rest₃⟩, hexp, heq⟩ := h
  cases heq
  obtain ⟨hsplit, hsign⟩ := sign_spec [minus] bs
  obtain ⟨hrest, hisInt⟩ := intPart_sound hint
  obtain ⟨rfl, hisFrac⟩ := fracPart_sound hfrac
  obtain ⟨rfl, hisExp⟩ := expPart_sound hexp
  refine ⟨?_, _, int, frac, exp, rfl, hsign, hisInt, hisFrac, hisExp⟩
  rw [hrest] at hsplit
  simpa only [List.append_assoc] using hsplit

theorem number_complete (h : IsNumber t) (hrest : Stops goesOn rest) : number (t ++ rest) = some (t, rest) := by
  obtain ⟨s, int, frac, exp, rfl, hs, hint, hfrac, hexp⟩ := h
  have hafterExp : Stops isDigit rest ∧ Stops isExp rest :=
    ⟨hrest.mono fun b hb => (goesOn_eq_false.mp hb).1, hrest.mono fun b hb => (goesOn_eq_false.mp hb).2.2⟩
  have hafterFrac : Stops isDigit (exp ++ rest) ∧ Stops (· == dot) (exp ++ rest) := by
    have hnone : Stops isDigit exp ∧ Stops (· == dot) exp := by
      rcases hexp with rfl | ⟨e, s', ds, rfl, he, -, -⟩
      · constructor <;> rintro b tail ⟨⟩
      · rw [isExp, Bool.or_eq_true, beq_iff_eq, beq_iff_eq] at he
        constructor <;> rintro b tail ⟨⟩ <;> rcases he with rfl | rfl <;> decide
    exact ⟨hafterExp.1.append hnone.1, (hrest.mono fun b hb => (goesOn_eq_false.mp hb).2.1).append hnone.2⟩
  have hafterInt : Stops isDigit (frac ++ (exp ++ rest)) := by
    refine hafterFrac.1.append ?_
    rcases hfrac with rfl | ⟨ds, rfl, -⟩ <;> rintro b tail ⟨⟩
    decide
  have hsign : sign [minus] (s ++ (int ++ (frac ++ (exp ++ rest)))) = (s, int ++ (frac ++ (exp ++ rest))) := by
    refine sign_append hs fun b tail heq => ?_
    obtain ⟨c, ds, rfl, hc⟩ := hint.head
    cases heq
    exact fun hb => not_sign_of_digit hc (List.mem_cons_of_mem _ hb)
  simp only [List.append_assoc]
  rw [number, hsign, intPart_complete hint hafterInt]
  simp only [Option.bind_eq_bind, Option.bind_some]
  rw [fracPart_complete hfrac hafterFrac.1 hafterFrac.2, Option.bind_some]
  simp only
  rw [expPart_complete hexp hafterExp.1 hafterExp.2]
  rfl

/-! ### Strings -/

theorem not_short : shortEscape 0x75 = none := rfl

theorem lowHalf_sound {high : Nat} (h : lowHalf high bs = some (s, rest)) :
    ∃ a b c d u, bs = backslash :: 0x75 :: a :: b :: c :: d :: rest ∧ codeUnit a b c d = some u ∧ IsLow u ∧
      s = Utf8.encode (joined high u) := by
  unfold lowHalf at h
  split at h
  · rename_i q e a b c d tail
    cases hunit : codeUnit a b c d with
    | none =>
        rw [hunit] at h
        cases h
    | some u =>
        rw [hunit] at h
        simp only at h
        split_ifs at h with hbytes
        obtain ⟨rfl, rfl, hlow⟩ := hbytes
        simp only [Option.some.injEq, Prod.mk.injEq] at h
        exact ⟨a, b, c, d, u, h.2 ▸ rfl, hunit, hlow, h.1.symm⟩
  · cases h

theorem unicode_sound (h : unicode bs = some (s, rest)) :
    ∃ e, bs = e ++ rest ∧ ∀ {t s'}, Chars t s' → Chars (backslash :: 0x75 :: (e ++ t)) (s ++ s') := by
  unfold unicode at h
  split at h
  · rename_i a b c d tail
    cases hunit : codeUnit a b c d with
    | none =>
        rw [hunit] at h
        cases h
    | some u =>
        rw [hunit] at h
        simp only at h
        split_ifs at h with hhigh hlow
        · obtain ⟨a', b', c', d', u', rfl, hunit', hlow, hs⟩ := lowHalf_sound h
          refine ⟨[a, b, c, d, backslash, 0x75, a', b', c', d'], rfl, fun ht => ?_⟩
          rw [hs]
          exact .pair hunit hhigh hunit' hlow ht
        · cases h
          exact ⟨[a, b, c, d], rfl, fun ht => .unit hunit hhigh hlow ht⟩
  · cases h

/-- What an escape stands for, in front of any string. -/
theorem escape_sound (h : escape bs = some (s, rest)) :
    ∃ e, bs = e ++ rest ∧ ∀ {t s'}, Chars t s' → Chars (backslash :: (e ++ t)) (s ++ s') := by
  cases bs with
  | nil => cases h
  | cons e tail =>
      rw [escape] at h
      split_ifs at h with he
      · obtain ⟨e', rfl, hmeans⟩ := unicode_sound h
        exact ⟨e :: e', rfl, fun ht => he ▸ hmeans ht⟩
      · obtain ⟨b, hshort, heq⟩ := Option.map_eq_some_iff.mp h
        cases heq
        exact ⟨[e], rfl, fun ht => .short hshort ht⟩

theorem chars_sound (h : chars n bs = some (s, rest)) : ∃ t, bs = t ++ quote :: rest ∧ Chars t s := by
  induction n generalizing bs s rest with
  | zero => cases h
  | succ n ih =>
      cases bs with
      | nil => cases h
      | cons b tail =>
          rw [chars] at h
          split_ifs at h with hquote hback hplain
          · cases h
            exact ⟨[], hquote ▸ rfl, .nil⟩
          · simp only [Option.bind_eq_bind, Option.bind_eq_some_iff] at h
            obtain ⟨⟨s₁, rest₁⟩, hescape, ⟨s₂, rest₂⟩, hrun, heq⟩ := h
            cases heq
            obtain ⟨e, rfl, hmeans⟩ := escape_sound hescape
            obtain ⟨t, rfl, ht⟩ := ih hrun
            refine ⟨backslash :: (e ++ t), ?_, hmeans ht⟩
            rw [hback, List.cons_append, List.append_assoc]
          · obtain ⟨⟨s₁, rest₁⟩, hrun, heq⟩ := Option.map_eq_some_iff.mp h
            cases heq
            obtain ⟨t, rfl, ht⟩ := ih hrun
            exact ⟨b :: t, rfl, .plain hplain ht⟩

theorem isPlain_iff {b : UInt8} : isPlain b = true ↔ 0x20 ≤ b ∧ b ≠ quote ∧ b ≠ backslash := by
  simp [isPlain, and_assoc]

/-- A string goes on behind an escape. -/
theorem chars_escape {e s' : List UInt8} (he : escape (e ++ (t ++ quote :: rest)) = some (s', t ++ quote :: rest))
    (hrun : chars n (t ++ quote :: rest) = some (s, rest)) :
    chars (n + 1) (backslash :: (e ++ (t ++ quote :: rest))) = some (s' ++ s, rest) := by
  have hne : backslash ≠ quote := by decide
  rw [chars, if_neg hne, if_pos rfl, he]
  simp only [Option.bind_eq_bind, Option.bind_some, hrun]

theorem chars_complete (h : Chars t s) (hn : t.length < n) : chars n (t ++ quote :: rest) = some (s, rest) := by
  induction h generalizing n with
  | nil =>
      obtain ⟨n, rfl⟩ := Nat.exists_eq_add_one_of_ne_zero (Nat.ne_zero_of_lt hn)
      exact if_pos rfl
  | @plain b t s hb h ih =>
      obtain ⟨n, rfl⟩ := Nat.exists_eq_add_one_of_ne_zero (Nat.ne_zero_of_lt hn)
      obtain ⟨-, hquote, hback⟩ := isPlain_iff.mp hb
      rw [List.cons_append, chars, if_neg hquote, if_neg hback, if_pos hb, ih (Nat.lt_of_succ_lt_succ hn)]
      rfl
  | @short e b t s he h ih =>
      obtain ⟨n, rfl⟩ := Nat.exists_eq_add_one_of_ne_zero (Nat.ne_zero_of_lt hn)
      have hne : e ≠ 0x75 := by
        rintro rfl
        cases not_short.symm.trans he
      have hrun : chars n (t ++ quote :: rest) = some (s, rest) := ih (by simp only [List.length_cons] at hn; omega)
      have hescape : escape ([e] ++ (t ++ quote :: rest)) = some ([b], t ++ quote :: rest) := by
        rw [List.singleton_append, escape, if_neg hne, he]
        rfl
      exact chars_escape hescape hrun
  | @unit a b c d u t s hu hhigh hlow h ih =>
      obtain ⟨n, rfl⟩ := Nat.exists_eq_add_one_of_ne_zero (Nat.ne_zero_of_lt hn)
      have hrun : chars n (t ++ quote :: rest) = some (s, rest) := ih (by simp only [List.length_cons] at hn; omega)
      refine chars_escape (e := [0x75, a, b, c, d]) ?_ hrun
      simp only [List.cons_append, List.nil_append, escape, if_true, unicode, hu, if_neg hhigh, if_neg hlow]
  | @pair a b c d a' b' c' d' u u' t s hu hhigh hu' hlow h ih =>
      obtain ⟨n, rfl⟩ := Nat.exists_eq_add_one_of_ne_zero (Nat.ne_zero_of_lt hn)
      have hrun : chars n (t ++ quote :: rest) = some (s, rest) := ih (by simp only [List.length_cons] at hn; omega)
      refine chars_escape (e := [0x75, a, b, c, d, backslash, 0x75, a', b', c', d']) ?_ hrun
      simp only [List.cons_append, List.nil_append, escape, if_true, unicode, hu, if_pos hhigh, lowHalf, hu', true_and,
        if_pos hlow]

/-! ### Values -/

variable {v : Value} {vs : List Value} {ms : List (List UInt8 × Value)}

/-- What a run of the parser on the fuel reads is a phrase. -/
structure Sound (n : Nat) : Prop where
  value : ∀ {bs v rest}, value n bs = some (v, rest) → ∃ w t, bs = w ++ (t ++ rest) ∧ Ws w ∧ Derives t (.value v)
  items : ∀ {bs vs rest}, items n bs = some (vs, rest) → ∃ t, bs = t ++ closeBracket :: rest ∧ Derives t (.items vs)
  members : ∀ {bs ms rest}, members n bs = some (ms, rest) → ∃ t, bs = t ++ closeBrace :: rest ∧ Derives t (.members ms)

theorem value_sound (ih : Sound n) {b : UInt8} (hskip : skipWs bs = b :: t) (h : value (n + 1) bs = some (v, rest)) :
    ∃ t', b :: t = t' ++ rest ∧ Derives t' (.value v) := by
  simp only [value, hskip] at h
  split_ifs at h with hquote hbracket hbrace hnull htrue hfalse
  · obtain ⟨⟨s, rest'⟩, hrun, heq⟩ := Option.map_eq_some_iff.mp h
    cases heq
    obtain ⟨t', rfl, hchars⟩ := chars_sound hrun
    exact ⟨quote :: (t' ++ [quote]), by simp [hquote], .string hchars⟩
  · cases hempty : expect closeBracket t with
    | some rest' =>
        rw [hempty] at h
        cases h
        obtain ⟨w, hw, rfl⟩ := expect_eq_some hempty
        exact ⟨openBracket :: (w ++ [closeBracket]), by simp [hbracket], .emptyArray hw⟩
    | none =>
        rw [hempty] at h
        obtain ⟨⟨vs, rest'⟩, hrun, heq⟩ := Option.map_eq_some_iff.mp h
        cases heq
        obtain ⟨t', rfl, hitems⟩ := ih.items hrun
        exact ⟨openBracket :: (t' ++ [closeBracket]), by simp [hbracket], .array hitems⟩
  · cases hempty : expect closeBrace t with
    | some rest' =>
        rw [hempty] at h
        cases h
        obtain ⟨w, hw, rfl⟩ := expect_eq_some hempty
        exact ⟨openBrace :: (w ++ [closeBrace]), by simp [hbrace], .emptyObject hw⟩
    | none =>
        rw [hempty] at h
        obtain ⟨⟨ms, rest'⟩, hrun, heq⟩ := Option.map_eq_some_iff.mp h
        cases heq
        obtain ⟨t', rfl, hmembers⟩ := ih.members hrun
        exact ⟨openBrace :: (t' ++ [closeBrace]), by simp [hbrace], .object hmembers⟩
  · obtain ⟨rest', hrun, heq⟩ := Option.map_eq_some_iff.mp h
    cases heq
    exact ⟨_, literal_eq_some.mp hrun, .null⟩
  · obtain ⟨rest', hrun, heq⟩ := Option.map_eq_some_iff.mp h
    cases heq
    exact ⟨_, literal_eq_some.mp hrun, .true⟩
  · obtain ⟨rest', hrun, heq⟩ := Option.map_eq_some_iff.mp h
    cases heq
    exact ⟨_, literal_eq_some.mp hrun, .false⟩
  · obtain ⟨⟨t', rest'⟩, hrun, heq⟩ := Option.map_eq_some_iff.mp h
    cases heq
    obtain ⟨heq, hnumber⟩ := number_sound hrun
    exact ⟨t', heq, .number hnumber⟩

theorem items_sound (ih : Sound n) (h : items (n + 1) bs = some (vs, rest)) :
    ∃ t, bs = t ++ closeBracket :: rest ∧ Derives t (.items vs) := by
  simp only [items, Option.bind_eq_bind, Option.bind_eq_some_iff] at h
  obtain ⟨⟨v, rest₁⟩, hvalue, h⟩ := h
  obtain ⟨w, t, rfl, hw, hv⟩ := ih.value hvalue
  simp only at h
  cases hcomma : expect comma rest₁ with
  | some rest₂ =>
      rw [hcomma] at h
      obtain ⟨⟨vs', rest'⟩, hrun, heq⟩ := Option.map_eq_some_iff.mp h
      cases heq
      obtain ⟨w', hw', rfl⟩ := expect_eq_some hcomma
      obtain ⟨t', rfl, hvs⟩ := ih.items hrun
      exact ⟨w ++ (t ++ (w' ++ comma :: t')), by simp, .item hw hw' hv hvs⟩
  | none =>
      rw [hcomma] at h
      obtain ⟨rest', hclose, heq⟩ := Option.map_eq_some_iff.mp h
      cases heq
      obtain ⟨w', hw', rfl⟩ := expect_eq_some hclose
      exact ⟨w ++ (t ++ w'), by simp, .lastItem hw hw' hv⟩

theorem members_sound (ih : Sound n) (h : members (n + 1) bs = some (ms, rest)) :
    ∃ t, bs = t ++ closeBrace :: rest ∧ Derives t (.members ms) := by
  simp only [members, Option.bind_eq_bind, Option.bind_eq_some_iff] at h
  obtain ⟨rest₁, hquote, ⟨s, rest₂⟩, hname, rest₃, hcolon, ⟨v, rest₄⟩, hvalue, h⟩ := h
  obtain ⟨w₁, hw₁, rfl⟩ := expect_eq_some hquote
  obtain ⟨name, rfl, hchars⟩ := chars_sound hname
  obtain ⟨w₂, hw₂, rfl⟩ := expect_eq_some hcolon
  obtain ⟨w₃, t, rfl, hw₃, hv⟩ := ih.value hvalue
  simp only at h
  cases hcomma : expect comma rest₄ with
  | some rest₅ =>
      rw [hcomma] at h
      obtain ⟨⟨ms', rest'⟩, hrun, heq⟩ := Option.map_eq_some_iff.mp h
      cases heq
      obtain ⟨w₄, hw₄, rfl⟩ := expect_eq_some hcomma
      obtain ⟨t', rfl, hms⟩ := ih.members hrun
      exact ⟨_, by simp, .member hw₁ hw₂ hw₃ hw₄ hchars hv hms⟩
  | none =>
      rw [hcomma] at h
      obtain ⟨rest', hclose, heq⟩ := Option.map_eq_some_iff.mp h
      cases heq
      obtain ⟨w₄, hw₄, rfl⟩ := expect_eq_some hclose
      exact ⟨_, by simp, .lastMember hw₁ hw₂ hw₃ hw₄ hchars hv⟩

theorem sound (n : Nat) : Sound n := by
  induction n with
  | zero => constructor <;> intro bs x rest h <;> cases h
  | succ n ih =>
      refine ⟨fun {bs v rest} h => ?_, items_sound ih, members_sound ih⟩
      obtain ⟨w, hw, hbs⟩ := skipWs_spec bs
      cases hskip : skipWs bs with
      | nil =>
          simp only [value, hskip] at h
          cases h
      | cons b t =>
          obtain ⟨t', hsplit, hv⟩ := value_sound ih hskip h
          rw [hskip, hsplit] at hbs
          exact ⟨w, t', hbs, hw, hv⟩

/-- The bytes a value starts with. -/
def starts (b : UInt8) : Bool :=
  b == quote || b == openBracket || b == openBrace || b == 0x6e || b == 0x74 || b == 0x66 || b == minus || isDigit b

theorem IsNumber.head (h : IsNumber t) : ∃ b tail, t = b :: tail ∧ (b = minus ∨ isDigit b = true) := by
  obtain ⟨s, int, frac, exp, rfl, hs, hint, -, -⟩ := h
  rcases hs with rfl | ⟨b, hb, rfl⟩
  · obtain ⟨b, ds, rfl, hb⟩ := hint.head
    exact ⟨b, _, rfl, Or.inr hb⟩
  · exact ⟨b, _, rfl, Or.inl (List.mem_singleton.mp hb)⟩

theorem value_starts (h : Derives t (.value v)) : ∃ b tail, t = b :: tail ∧ starts b = true := by
  cases h with
  | number h =>
      obtain ⟨b, tail, rfl, hb⟩ := h.head
      refine ⟨b, tail, rfl, ?_⟩
      rcases hb with rfl | hb
      · decide
      · rw [starts, hb, Bool.or_true]
  | _ => exact ⟨_, _, rfl, by decide⟩

theorem not_ws_of_starts {b : UInt8} (h : starts b = true) : isWs b = false := by
  by_contra hws
  rw [Bool.not_eq_false, isWs, Bool.or_eq_true, Bool.or_eq_true, Bool.or_eq_true] at hws
  simp only [beq_iff_eq] at hws
  rcases hws with ((rfl | rfl) | rfl) | rfl <;> exact absurd h (by decide)

/-- What the parser returns on a phrase, whatever follows it. -/
def Complete (t : List UInt8) : Phrase → Prop
  | .value v => ∀ n rest, 2 * t.length ≤ n → Stops goesOn rest → value n (t ++ rest) = some (v, rest)
  | .items vs => ∀ n rest, 2 * t.length < n → items n (t ++ closeBracket :: rest) = some (vs, rest)
  | .members ms => ∀ n rest, 2 * t.length < n → members n (t ++ closeBrace :: rest) = some (ms, rest)

theorem skipWs_cons {b : UInt8} (hb : isWs b = false) : skipWs (b :: rest) = b :: rest :=
  skipWs_append (w := []) (fun c hc => by cases hc) hb

/-- White space in front of a value. -/
theorem value_skip {b : UInt8} (hw : Ws w) (hb : isWs b = false) : value n (w ++ b :: rest) = value n (b :: rest) := by
  cases n with
  | zero => rfl
  | succ n => rw [value, value, skipWs_append hw hb, skipWs_cons hb]

theorem items_starts (h : Derives t (.items vs)) : ∃ w b tail, t = w ++ b :: tail ∧ Ws w ∧ starts b = true := by
  cases h with
  | lastItem hw hw' h =>
      obtain ⟨b, tail, rfl, hb⟩ := value_starts h
      exact ⟨_, b, _, rfl, hw, hb⟩
  | item hw hw' h h' =>
      obtain ⟨b, tail, rfl, hb⟩ := value_starts h
      exact ⟨_, b, _, rfl, hw, hb⟩

theorem members_starts (h : Derives t (.members ms)) : ∃ w tail, t = w ++ quote :: tail ∧ Ws w := by
  cases h with
  | lastMember hw₁ => exact ⟨_, _, rfl, hw₁⟩
  | member hw₁ => exact ⟨_, _, rfl, hw₁⟩

/-- A number ends at white space and at a bracket. -/
theorem stops_ws {b : UInt8} (hw : Ws w) (hb : goesOn b = false) : Stops goesOn (w ++ b :: rest) := by
  intro c tail heq
  cases w with
  | nil =>
      cases heq
      exact hb
  | cons c' w =>
      cases heq
      have hws := hw c List.mem_cons_self
      rw [isWs, Bool.or_eq_true, Bool.or_eq_true, Bool.or_eq_true] at hws
      simp only [beq_iff_eq] at hws
      rcases hws with ((rfl | rfl) | rfl) | rfl <;> decide

/-- A value between white space, up to a byte that ends it. -/
theorem Complete.value_between {w' : List UInt8} {b : UInt8} (h : Complete t (.value v)) (hv : Derives t (.value v))
    (hw : Ws w) (hw' : Ws w') (hb : goesOn b = false) (hn : 2 * t.length ≤ n) :
    value n (w ++ (t ++ (w' ++ b :: rest))) = some (v, w' ++ b :: rest) := by
  obtain ⟨c, tail, rfl, hc⟩ := value_starts hv
  rw [← h n _ hn (stops_ws hw' hb)]
  exact value_skip hw (not_ws_of_starts hc)

theorem items_last (h : Complete t (.value v)) (hv : Derives t (.value v)) {w' : List UInt8} (hw : Ws w) (hw' : Ws w') :
    Complete (w ++ (t ++ w')) (.items [v]) := by
  intro n rest hn
  obtain ⟨n, rfl⟩ := Nat.exists_eq_add_one_of_ne_zero (Nat.ne_zero_of_lt hn)
  simp only [List.length_append] at hn
  simp only [List.append_assoc]
  rw [items, h.value_between hv hw hw' (by decide) (by omega)]
  simp only [Option.bind_eq_bind, Option.bind_some]
  rw [expect_other hw' (by decide) (by decide), expect_self hw' (by decide)]
  rfl

theorem items_cons (h : Complete t (.value v)) (hv : Derives t (.value v)) {w' t' : List UInt8} (hw : Ws w) (hw' : Ws w')
    (h' : Complete t' (.items vs)) : Complete (w ++ (t ++ (w' ++ comma :: t'))) (.items (v :: vs)) := by
  intro n rest hn
  obtain ⟨n, rfl⟩ := Nat.exists_eq_add_one_of_ne_zero (Nat.ne_zero_of_lt hn)
  simp only [List.length_append, List.length_cons] at hn
  simp only [List.append_assoc, List.cons_append]
  rw [items, h.value_between hv hw hw' (by decide) (by omega)]
  simp only [Option.bind_eq_bind, Option.bind_some]
  rw [expect_self hw' (by decide)]
  simp only
  rw [h' n rest (by omega)]
  rfl

/-- One member, up to a byte that ends its value. -/
theorem members_succ (h : Complete t (.value v)) (hv : Derives t (.value v)) {w₁ w₂ w₃ w₄ name : List UInt8} {b : UInt8}
    (hw₁ : Ws w₁) (hw₂ : Ws w₂) (hw₃ : Ws w₃) (hw₄ : Ws w₄) (hname : Chars name s) (hb : goesOn b = false)
    (hn : name.length < n) (ht : 2 * t.length ≤ n) :
    members (n + 1) (w₁ ++ quote :: (name ++ quote :: (w₂ ++ colon :: (w₃ ++ (t ++ (w₄ ++ b :: rest)))))) =
      match expect comma (w₄ ++ b :: rest) with
      | some rest => (members n rest).map fun (ms, rest) => ((s, v) :: ms, rest)
      | none => (expect closeBrace (w₄ ++ b :: rest)).map fun rest => ([(s, v)], rest) := by
  rw [members, expect_self hw₁ (by decide)]
  simp only [Option.bind_eq_bind, Option.bind_some]
  rw [chars_complete hname hn, Option.bind_some]
  simp only
  rw [expect_self hw₂ (by decide), Option.bind_some, h.value_between hv hw₃ hw₄ hb ht]
  rfl

theorem members_last (h : Complete t (.value v)) (hv : Derives t (.value v)) {w₁ w₂ w₃ w₄ name : List UInt8}
    (hw₁ : Ws w₁) (hw₂ : Ws w₂) (hw₃ : Ws w₃) (hw₄ : Ws w₄) (hname : Chars name s) :
    Complete (w₁ ++ quote :: (name ++ quote :: (w₂ ++ colon :: (w₃ ++ (t ++ w₄))))) (.members [(s, v)]) := by
  intro n rest hn
  obtain ⟨n, rfl⟩ := Nat.exists_eq_add_one_of_ne_zero (Nat.ne_zero_of_lt hn)
  simp only [List.length_append, List.length_cons] at hn
  simp only [List.append_assoc, List.cons_append]
  rw [members_succ h hv hw₁ hw₂ hw₃ hw₄ hname (by decide) (by omega) (by omega), expect_other hw₄ (by decide) (by decide),
    expect_self hw₄ (by decide)]
  rfl

theorem members_cons (h : Complete t (.value v)) (hv : Derives t (.value v)) {w₁ w₂ w₃ w₄ name t' : List UInt8}
    (hw₁ : Ws w₁) (hw₂ : Ws w₂) (hw₃ : Ws w₃) (hw₄ : Ws w₄) (hname : Chars name s) (h' : Complete t' (.members ms)) :
    Complete (w₁ ++ quote :: (name ++ quote :: (w₂ ++ colon :: (w₃ ++ (t ++ (w₄ ++ comma :: t'))))))
      (.members ((s, v) :: ms)) := by
  intro n rest hn
  obtain ⟨n, rfl⟩ := Nat.exists_eq_add_one_of_ne_zero (Nat.ne_zero_of_lt hn)
  simp only [List.length_append, List.length_cons] at hn
  simp only [List.append_assoc, List.cons_append]
  rw [members_succ h hv hw₁ hw₂ hw₃ hw₄ hname (by decide) (by omega) (by omega), expect_self hw₄ (by decide)]
  simp only
  rw [h' n rest (by omega)]
  rfl

/-- The phrase behind an opening bracket does not begin with the closing one. -/
theorem expect_close {b close : UInt8} {tail : List UInt8} (hw : Ws w) (hb : starts b = true)
    (hclose : starts close = false) : expect close (w ++ b :: tail) = none := by
  refine expect_other hw (not_ws_of_starts hb) ?_
  rintro rfl
  rw [hclose] at hb
  cases hb

theorem value_number (h : IsNumber t) : Complete t (.value (.number t)) := by
  intro n rest hn hrest
  have hrun := number_complete h hrest
  obtain ⟨b, tail, rfl, hb⟩ := h.head
  simp only [List.length_cons] at hn
  obtain ⟨n, rfl⟩ := Nat.exists_eq_add_one_of_ne_zero (by omega : n ≠ 0)
  have hother : isWs b = false ∧ b ≠ quote ∧ b ≠ openBracket ∧ b ≠ openBrace ∧ b ≠ 0x6e ∧ b ≠ 0x74 ∧ b ≠ 0x66 := by
    have hstarts : starts b = true := by
      rcases hb with rfl | hb
      · decide
      · rw [starts, hb, Bool.or_true]
    refine ⟨not_ws_of_starts hstarts, ?_, ?_, ?_, ?_, ?_, ?_⟩ <;> rintro rfl <;> exact absurd hb (by decide)
  obtain ⟨hws, hquote, hbracket, hbrace, hnull, htrue, hfalse⟩ := hother
  rw [List.cons_append] at hrun ⊢
  rw [value, skipWs_cons hws]
  simp only
  rw [if_neg hquote, if_neg hbracket, if_neg hbrace, if_neg hnull, if_neg htrue, if_neg hfalse, hrun]
  rfl

theorem value_string (h : Chars t s) : Complete (quote :: (t ++ [quote])) (.value (.string s)) := by
  intro n rest hn _
  simp only [List.length_cons, List.length_append] at hn
  obtain ⟨n, rfl⟩ := Nat.exists_eq_add_one_of_ne_zero (by omega : n ≠ 0)
  simp only [List.cons_append, List.append_assoc, List.nil_append]
  rw [value, skipWs_cons (by decide)]
  simp only
  rw [if_pos trivial, chars_complete h (by omega)]
  rfl

theorem value_array (h : Complete t (.items vs)) (ht : Derives t (.items vs)) :
    Complete (openBracket :: (t ++ [closeBracket])) (.value (.array vs)) := by
  intro n rest hn _
  simp only [List.length_cons, List.length_append] at hn
  obtain ⟨n, rfl⟩ := Nat.exists_eq_add_one_of_ne_zero (by omega : n ≠ 0)
  have hrun := h n rest (by omega)
  obtain ⟨w, b, tail, rfl, hw, hb⟩ := items_starts ht
  simp only [List.cons_append, List.append_assoc, List.nil_append] at hrun ⊢
  rw [value, skipWs_cons (by decide)]
  simp only
  rw [if_neg (by decide), if_pos trivial, expect_close hw hb (by decide), hrun]
  rfl

theorem value_object (h : Complete t (.members ms)) (ht : Derives t (.members ms)) :
    Complete (openBrace :: (t ++ [closeBrace])) (.value (.object ms)) := by
  intro n rest hn _
  simp only [List.length_cons, List.length_append] at hn
  obtain ⟨n, rfl⟩ := Nat.exists_eq_add_one_of_ne_zero (by omega : n ≠ 0)
  have hrun := h n rest (by omega)
  obtain ⟨w, tail, rfl, hw⟩ := members_starts ht
  simp only [List.cons_append, List.append_assoc, List.nil_append] at hrun ⊢
  rw [value, skipWs_cons (by decide)]
  simp only
  rw [if_neg (by decide), if_neg (by decide), if_pos trivial, expect_close hw (by decide) (by decide), hrun]
  rfl

theorem value_emptyArray (hw : Ws w) : Complete (openBracket :: (w ++ [closeBracket])) (.value (.array [])) := by
  intro n rest hn _
  simp only [List.length_cons, List.length_append] at hn
  obtain ⟨n, rfl⟩ := Nat.exists_eq_add_one_of_ne_zero (by omega : n ≠ 0)
  simp only [List.cons_append, List.append_assoc, List.nil_append]
  rw [value, skipWs_cons (by decide)]
  simp only
  rw [if_neg (by decide), if_pos trivial, expect_self hw (by decide)]

theorem value_emptyObject (hw : Ws w) : Complete (openBrace :: (w ++ [closeBrace])) (.value (.object [])) := by
  intro n rest hn _
  simp only [List.length_cons, List.length_append] at hn
  obtain ⟨n, rfl⟩ := Nat.exists_eq_add_one_of_ne_zero (by omega : n ≠ 0)
  simp only [List.cons_append, List.append_assoc, List.nil_append]
  rw [value, skipWs_cons (by decide)]
  simp only
  rw [if_neg (by decide), if_neg (by decide), if_pos trivial, expect_self hw (by decide)]

theorem value_literal {b : UInt8} {word : List UInt8} (hword : word = b :: t)
    (hvalue : ∀ n rest, value (n + 1) (b :: rest) = (literal word (b :: rest)).map fun rest => (v, rest)) :
    Complete word (.value v) := by
  subst hword
  intro n rest hn _
  simp only [List.length_cons] at hn
  obtain ⟨n, rfl⟩ := Nat.exists_eq_add_one_of_ne_zero (by omega : n ≠ 0)
  rw [List.cons_append, hvalue, ← List.cons_append, literal_eq_some.mpr rfl]
  rfl

theorem complete {p : Phrase} (h : Derives t p) : Complete t p := by
  induction h with
  | null => exact value_literal (b := 0x6e) rfl fun n rest => rfl
  | true => exact value_literal (b := 0x74) rfl fun n rest => rfl
  | false => exact value_literal (b := 0x66) rfl fun n rest => rfl
  | number h => exact value_number h
  | string h => exact value_string h
  | emptyArray hw => exact value_emptyArray hw
  | array h ih => exact value_array ih h
  | emptyObject hw => exact value_emptyObject hw
  | object h ih => exact value_object ih h
  | lastItem hw hw' h ih => exact items_last ih h hw hw'
  | item hw hw' h _ ih ih' => exact items_cons ih h hw hw' ih'
  | lastMember hw₁ hw₂ hw₃ hw₄ hn h ih => exact members_last ih h hw₁ hw₂ hw₃ hw₄ hn
  | member hw₁ hw₂ hw₃ hw₄ hn h _ ih ih' => exact members_cons ih h hw₁ hw₂ hw₃ hw₄ hn ih'

/-- The parser accepts the documents, each with the value it means. -/
theorem parse_eq_some {text : List UInt8} : parse text = some v ↔ Document text v := by
  rw [parse]
  constructor
  · intro h
    split_ifs at h with hvalid
    cases hrun : value (2 * text.length + 1) text with
    | none =>
        rw [hrun] at h
        cases h
    | some x =>
        obtain ⟨v', rest⟩ := x
        rw [hrun] at h
        simp only at h
        split_ifs at h with hrest
        cases h
        obtain ⟨w, t, rfl, hw, hv⟩ := (sound _).value hrun
        exact ⟨hvalid, w, t, rest, rfl, hw, List.all_eq_true.mp hrest, hv⟩
  · rintro ⟨hvalid, w, t, w', rfl, hw, hw', hv⟩
    obtain ⟨b, tail, rfl, hb⟩ := value_starts hv
    have hstops : Stops goesOn w' := by
      rintro c w' rfl
      have hcomma : goesOn comma = false := by decide
      have hstops : Stops goesOn (c :: w' ++ comma :: []) := stops_ws hw' hcomma
      exact hstops c _ rfl
    have hrun : value (2 * (w ++ (b :: tail ++ w')).length + 1) (w ++ (b :: tail ++ w')) = some (v, w') := by
      rw [List.cons_append, value_skip hw (not_ws_of_starts hb)]
      exact complete hv _ w' (by simp only [List.length_append, List.length_cons]; omega) hstops
    rw [if_pos hvalid, hrun]
    exact if_pos (List.all_eq_true.mpr hw')

end Json
