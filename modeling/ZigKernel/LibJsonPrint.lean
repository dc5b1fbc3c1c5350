import ZigKernel.LibJsonSound

/-! Values printed without white space. A value whose strings need no escape and whose numbers are plain integers is
printed as a document that means it. -/

namespace Json

/-- Text that stands for itself between quotes. -/
def plainText (s : List UInt8) : Bool := s.all fun b => isPlain b && decide (b < 0x80)

/-- The digits of an integer. -/
def intText (t : List UInt8) : Bool := t == [zero] || (t != [] && t.all isDigit && t.head? != some zero)

mutual

def print : Value → List UInt8
  | .null => ascii "null"
  | .bool b => if b then ascii "true" else ascii "false"
  | .number t => t
  | .string s => quote :: (s ++ [quote])
  | .array vs => openBracket :: (printItems vs ++ [closeBracket])
  | .object ms => openBrace :: (printMembers ms ++ [closeBrace])

def printItems : List Value → List UInt8
  | [] => []
  | [v] => print v
  | v :: v' :: vs => print v ++ comma :: printItems (v' :: vs)

def printMembers : List (List UInt8 × Value) → List UInt8
  | [] => []
  | [(n, v)] => quote :: (n ++ quote :: colon :: print v)
  | (n, v) :: m :: ms => quote :: (n ++ quote :: colon :: (print v ++ comma :: printMembers (m :: ms)))

end

/-- The member of an object. -/
def Value.member (name : List UInt8) : Value → Option Value
  | .object ms => ms.lookup name
  | _ => none

/-- The items behind the first. -/
def moreItems (vs : List Value) : List UInt8 := vs.flatMap fun v => comma :: print v

def printMember (m : List UInt8 × Value) : List UInt8 := quote :: (m.1 ++ quote :: colon :: print m.2)

/-- The members behind the first. -/
def moreMembers (ms : List (List UInt8 × Value)) : List UInt8 := ms.flatMap fun m => comma :: printMember m

mutual

/-- Nothing to escape. -/
def plain : Value → Bool
  | .null => true
  | .bool _ => true
  | .number t => intText t
  | .string s => plainText s
  | .array vs => plainItems vs
  | .object ms => plainMembers ms

def plainItems : List Value → Bool
  | [] => true
  | v :: vs => plain v && plainItems vs

def plainMembers : List (List UInt8 × Value) → Bool
  | [] => true
  | (n, v) :: ms => plainText n && plain v && plainMembers ms

end

theorem plainItems_eq_all (vs : List Value) : plainItems vs = vs.all plain := by
  induction vs with
  | nil => rfl
  | cons v vs ih => rw [plainItems, ih, List.all_cons]

theorem plainItems_map {α : Type} {f : α → Value} {l : List α} (h : ∀ a ∈ l, plain (f a) = true) :
    plainItems (l.map f) = true := by
  rw [plainItems_eq_all, List.all_map, List.all_eq_true]
  exact h

/-- The names and the values of an object, apart. -/
theorem plainMembers_of {ms : List (List UInt8 × Value)} (hnames : (ms.map Prod.fst).all plainText = true)
    (hvalues : plainItems (ms.map Prod.snd) = true) : plainMembers ms = true := by
  induction ms with
  | nil => rfl
  | cons m ms ih =>
      rw [List.map_cons, List.all_cons, Bool.and_eq_true] at hnames
      rw [List.map_cons, plainItems, Bool.and_eq_true] at hvalues
      rw [plainMembers, hnames.1, hvalues.1, ih hnames.2 hvalues.2]
      rfl

variable {s : List UInt8} {v : Value}

theorem printItems_cons (v : Value) (vs : List Value) : printItems (v :: vs) = print v ++ moreItems vs := by
  induction vs generalizing v with
  | nil => rw [moreItems, List.flatMap_nil, List.append_nil, printItems]
  | cons v' vs ih => rw [printItems, ih, moreItems, moreItems, List.flatMap_cons, List.cons_append]

theorem moreMembers_cons (m : List UInt8 × Value) (ms : List (List UInt8 × Value)) :
    moreMembers (m :: ms) = comma :: (printMember m ++ moreMembers ms) := List.flatMap_cons

theorem moreMembers_append (ms ms' : List (List UInt8 × Value)) :
    moreMembers (ms ++ ms') = moreMembers ms ++ moreMembers ms' := List.flatMap_append

theorem printMembers_cons (m : List UInt8 × Value) (ms : List (List UInt8 × Value)) :
    printMembers (m :: ms) = printMember m ++ moreMembers ms := by
  induction ms generalizing m with
  | nil => rw [moreMembers, List.flatMap_nil, List.append_nil, printMembers, printMember]
  | cons m' ms ih =>
      rw [printMembers, ih, moreMembers_cons]
      simp only [printMember, List.cons_append, List.append_assoc]

theorem print_object (m : List UInt8 × Value) (ms : List (List UInt8 × Value)) :
    print (.object (m :: ms)) = openBrace :: (printMember m ++ (moreMembers ms ++ [closeBrace])) := by
  rw [print, printMembers_cons, List.append_assoc]

theorem chars_of_plain (h : plainText s = true) : Chars s s := by
  induction s with
  | nil => exact .nil
  | cons b s ih =>
      rw [plainText, List.all_cons, Bool.and_eq_true, Bool.and_eq_true] at h
      exact .plain h.1.1 (ih h.2)

theorem isNumber_of_int (h : intText s = true) : IsNumber s := by
  refine ⟨[], s, [], [], by simp, Or.inl rfl, ?_, Or.inl rfl, Or.inl rfl⟩
  rw [intText, Bool.or_eq_true, beq_iff_eq] at h
  rcases h with rfl | h
  · exact Or.inl rfl
  · rw [Bool.and_eq_true, Bool.and_eq_true, bne_iff_ne, bne_iff_ne, List.all_eq_true] at h
    exact Or.inr ⟨h.1, h.2⟩

theorem noSpace : Ws [] := fun b hb => by cases hb

theorem derives_item {vs : List Value} (hv : Derives (print v) (.value v))
    (hvs : vs ≠ [] → Derives (printItems vs) (.items vs)) : Derives (printItems (v :: vs)) (.items (v :: vs)) := by
  cases vs with
  | nil =>
      have hlast := Derives.lastItem noSpace noSpace hv
      rwa [List.append_nil] at hlast
  | cons v' vs => exact .item noSpace noSpace hv (hvs (List.cons_ne_nil _ _))

theorem derives_member {n : List UInt8} {ms : List (List UInt8 × Value)} (hn : Chars n n)
    (hv : Derives (print v) (.value v)) (hms : ms ≠ [] → Derives (printMembers ms) (.members ms)) :
    Derives (printMembers ((n, v) :: ms)) (.members ((n, v) :: ms)) := by
  cases ms with
  | nil =>
      have hlast := Derives.lastMember noSpace noSpace noSpace noSpace hn hv
      rwa [List.append_nil] at hlast
  | cons m ms => exact .member noSpace noSpace noSpace noSpace hn hv (hms (List.cons_ne_nil _ _))

/-- By induction on the value, with the lists of items and of members next to it. -/
theorem derives_print : ∀ v : Value, plain v = true → Derives (print v) (.value v) := by
  refine @Value.rec (fun v => plain v = true → Derives (print v) (.value v))
    (fun vs => plainItems vs = true → vs ≠ [] → Derives (printItems vs) (.items vs))
    (fun ms => plainMembers ms = true → ms ≠ [] → Derives (printMembers ms) (.members ms))
    (fun m => plain m.2 = true → Derives (print m.2) (.value m.2))
    ?null ?bool ?number ?string ?array ?object ?noItems ?items ?noMembers ?members ?member
  case null => exact fun _ => .null
  case bool => exact fun b _ => by cases b <;> constructor
  case number => exact fun t h => .number (isNumber_of_int h)
  case string => exact fun s h => .string (chars_of_plain h)
  case array =>
    intro vs ih h
    cases vs with
    | nil => exact .emptyArray noSpace
    | cons v vs => exact .array (ih h (List.cons_ne_nil _ _))
  case object =>
    intro ms ih h
    cases ms with
    | nil => exact .emptyObject noSpace
    | cons m ms => exact .object (ih h (List.cons_ne_nil _ _))
  case noItems => exact fun _ h => absurd rfl h
  case items =>
    intro v vs ihv ihvs h _
    rw [plainItems, Bool.and_eq_true] at h
    exact derives_item (ihv h.1) (ihvs h.2)
  case noMembers => exact fun _ h => absurd rfl h
  case members =>
    rintro ⟨n, v⟩ ms ihv ihms h _
    rw [plainMembers, Bool.and_eq_true, Bool.and_eq_true] at h
    exact derives_member (chars_of_plain h.1.1) (ihv h.1.2) (ihms h.2)
  case member => exact fun _ _ ih => ih

theorem utf8_plain (h : plainText s = true) : Utf8.Valid s := by
  refine Utf8.valid_ascii fun b hb => ?_
  have hall := List.all_eq_true.mp h b hb
  rw [Bool.and_eq_true] at hall
  exact of_decide_eq_true hall.2

theorem utf8_int (h : intText s = true) : Utf8.Valid s := by
  rw [intText, Bool.or_eq_true, beq_iff_eq] at h
  rcases h with rfl | h
  · decide
  · rw [Bool.and_eq_true, Bool.and_eq_true, List.all_eq_true] at h
    refine Utf8.valid_ascii fun b hb => ?_
    have hdigit := h.1.2 b hb
    rw [isDigit, Bool.and_eq_true, decide_eq_true_eq, decide_eq_true_eq] at hdigit
    exact UInt8.lt_of_le_of_lt hdigit.2 (by decide)

theorem utf8_item {vs : List Value} (hv : Utf8.Valid (print v)) (hvs : Utf8.Valid (printItems vs)) :
    Utf8.Valid (printItems (v :: vs)) := by
  cases vs with
  | nil => exact hv
  | cons v' vs => exact hv.append (.append (s := [comma]) (by decide) hvs)

theorem utf8_member {n : List UInt8} {ms : List (List UInt8 × Value)} (hn : Utf8.Valid n)
    (hv : Utf8.Valid (print v)) (hms : Utf8.Valid (printMembers ms)) : Utf8.Valid (printMembers ((n, v) :: ms)) := by
  cases ms with
  | nil => exact .append (s := [quote]) (by decide) (hn.append (.append (s := [quote, colon]) (by decide) hv))
  | cons m ms =>
      exact .append (s := [quote]) (by decide) (hn.append (.append (s := [quote, colon]) (by decide)
        (hv.append (.append (s := [comma]) (by decide) hms))))

theorem utf8_print : ∀ v : Value, plain v = true → Utf8.Valid (print v) := by
  refine @Value.rec (fun v => plain v = true → Utf8.Valid (print v))
    (fun vs => plainItems vs = true → Utf8.Valid (printItems vs))
    (fun ms => plainMembers ms = true → Utf8.Valid (printMembers ms))
    (fun m => plain m.2 = true → Utf8.Valid (print m.2))
    ?null ?bool ?number ?string ?array ?object ?noItems ?items ?noMembers ?members ?member
  case null => exact fun _ => by decide
  case bool => exact fun b _ => by cases b <;> decide
  case number => exact fun t h => utf8_int h
  case string => exact fun s h => .append (s := [quote]) (by decide) ((utf8_plain h).append (by decide))
  case array => exact fun vs ih h => .append (s := [openBracket]) (by decide) ((ih h).append (by decide))
  case object => exact fun ms ih h => .append (s := [openBrace]) (by decide) ((ih h).append (by decide))
  case noItems => exact fun _ => by decide
  case items =>
    intro v vs ihv ihvs h
    rw [plainItems, Bool.and_eq_true] at h
    exact utf8_item (ihv h.1) (ihvs h.2)
  case noMembers => exact fun _ => by decide
  case members =>
    rintro ⟨n, v⟩ ms ihv ihms h
    rw [plainMembers, Bool.and_eq_true, Bool.and_eq_true] at h
    exact utf8_member (utf8_plain h.1.1) (ihv h.1.2) (ihms h.2)
  case member => exact fun _ _ ih => ih

theorem document_print (h : plain v = true) : Document (print v) v :=
  ⟨utf8_print v h, [], print v, [], (List.append_nil _).symm, noSpace, noSpace, derives_print v h⟩

/-- The parser reads back what was printed. -/
theorem parse_print (h : plain v = true) : parse (print v) = some v := parse_eq_some.mpr (document_print h)

end Json
