import ZodGraph.Proofs.Json.Collapse

/-!
The grammar of JSON, said of the text alone: which texts stand for which values. A text of the
grammar is read as the value it stands for, given room for the brackets the value has open.
-/

namespace ZodGraph.Json

/-! ### Strings -/

/-- What stands between the quotes of a string, and the characters it stands for. -/
inductive Quoted : List Char → List Char → Prop
  | nil : Quoted [] []
  | plain {c : Char} {t s : List Char} :
    c ≠ '"' → c ≠ '\\' → 32 ≤ c.toNat → Quoted t s → Quoted (c :: t) (c :: s)
  | escape {c e : Char} {t s : List Char} :
    simpleEscape? c = some e → Quoted t s → Quoted ('\\' :: c :: t) (e :: s)
  | unit {a b c d : Char} {n : Nat} {t s : List Char} :
    hexUnit? a b c d = some n → isHighSurrogate n = false → isLowSurrogate n = false →
      Quoted t s → Quoted (['\\', 'u', a, b, c, d] ++ t) (Char.ofNat n :: s)
  /-- A character past 16 bits is a pair of surrogates. -/
  | pair {a b c d e f g h : Char} {n m : Nat} {t s : List Char} :
    hexUnit? a b c d = some n → hexUnit? e f g h = some m → isHighSurrogate n →
      isLowSurrogate m → Quoted t s →
      Quoted (['\\', 'u', a, b, c, d, '\\', 'u', e, f, g, h] ++ t)
        (Char.ofNat ((n - 0xd800) * 0x400 + (m - 0xdc00) + 0x10000) :: s)

lemma not_isLowSurrogate {n : Nat} (h : isHighSurrogate n) : isLowSurrogate n = false := by
  simp only [isHighSurrogate, isLowSurrogate, Bool.and_eq_true, decide_eq_true_eq] at h ⊢
  simp only [Bool.and_eq_false_iff, decide_eq_false_iff_not]
  omega

lemma Quoted.stringText {t s : List Char} (h : Quoted t s) : StringText (t ++ ['"']) s := by
  induction h with
  | nil => exact ⟨fun _ => rfl, fun _ => rfl⟩
  | @plain c t s hq hb hc _ ih =>
    refine @StringText.cons [c] _ s c ih (fun r => ?_) fun r => ?_
    · exact (plain_of_ne hq hb (by omega) r).1
    · exact (plain_of_ne hq hb (by omega) r).2
  | @escape c e t s he _ ih =>
    refine @StringText.cons ['\\', c] _ s e ih (fun r => ?_) fun r => ?_
    · exact (simple_escape he r).1
    · exact (simple_escape he r).2
  | @unit a b c d n t s hn hhigh hlow _ ih =>
    rw [List.append_assoc]
    refine ih.cons (fun r => ?_) fun r => ?_
    · simp [string, hn, hhigh, hlow]
    · simp [skipString, hn]
  | @pair a b c d e f g h n m t s hn hm hhigh hlow _ ih =>
    rw [List.append_assoc]
    refine ih.cons (fun r => ?_) fun r => ?_
    · simp [string, hn, hm, hhigh, hlow, not_isLowSurrogate hhigh]
    · simp [skipString, hn, hm]

lemma string_sound {cs s r : List Char} (h : string cs = .ok (s, r)) :
    ∃ t, cs = t ++ '"' :: r ∧ Quoted t s := by
  fun_induction string cs generalizing s r with
  | case2 r' =>
    obtain ⟨rfl, rfl⟩ : [] = s ∧ r' = r := by simpa using h
    exact ⟨[], rfl, .nil⟩
  | case8 a b c d n hn hlow hhigh e f g k cs m hm hlow' ih =>
    obtain ⟨s', hs, rfl⟩ := push_eq_ok.1 h
    obtain ⟨t, rfl, ht⟩ := ih hs
    exact ⟨['\\', 'u', a, b, c, d, '\\', 'u', e, f, g, k] ++ t, rfl, .pair hn hm hhigh hlow' ht⟩
  | case12 a b c d cs n hn hlow hhigh ih =>
    obtain ⟨s', hs, rfl⟩ := push_eq_ok.1 h
    obtain ⟨t, rfl, ht⟩ := ih hs
    refine ⟨['\\', 'u', a, b, c, d] ++ t, rfl, .unit hn ?_ ?_ ht⟩
    · simpa using hhigh
    · simpa using hlow
  | case14 c cs _ _ e he ih =>
    obtain ⟨s', hs, rfl⟩ := push_eq_ok.1 h
    obtain ⟨t, rfl, ht⟩ := ih hs
    exact ⟨'\\' :: c :: t, rfl, .escape he ht⟩
  | case18 c cs hq _ _ hb hb' hc ih =>
    obtain ⟨s', hs, rfl⟩ := push_eq_ok.1 h
    obtain ⟨t, rfl, ht⟩ := ih hs
    have hne : c ≠ '\\' := by
      rintro rfl
      rcases hcs : t ++ '"' :: r with _ | ⟨d, ds⟩
      · exact hb' rfl hcs
      · exact hb d ds rfl hcs
    exact ⟨c :: t, rfl, .plain hq hne (by omega) ht⟩
  | _ => simp at h

/-! ### Whole numbers -/

/-- Extends a number by decimal digits. -/
def decimalFrom (n : Nat) (ds : List Char) : Nat :=
  ds.foldl (fun n c => n * 10 + (c.toNat - '0'.toNat)) n

/-- The number that decimal digits stand for. -/
def decimal (ds : List Char) : Nat := decimalFrom 0 ds

section Decimal

variable {n limit : Nat} {ds r : List Char} {c : Char}

lemma decimalFrom_cons (n : Nat) (c : Char) (ds : List Char) :
    decimalFrom n (c :: ds) = decimalFrom (n * 10 + (c.toNat - '0'.toNat)) ds := by
  rw [decimalFrom, decimalFrom, List.foldl_cons]

lemma le_decimalFrom (n : Nat) (ds : List Char) : n ≤ decimalFrom n ds := by
  induction ds generalizing n with
  | nil => exact le_refl n
  | cons c ds ih =>
    have hrest := ih (n * 10 + (c.toNat - '0'.toNat))
    rw [decimalFrom_cons]
    omega

lemma digit?_of_isDigit (h : isDigit c) : digit? c = some (c.toNat - '0'.toNat) := by
  unfold isDigit digit? at h
  unfold digit?
  split at h
  · next hc => rw [if_pos hc]; rfl
  · simp at h

/-- Digits of a number within the limit are all taken. -/
lemma takeDigits_decimal (h : Digits ds) (hr : NoDigit r) (hle : decimalFrom n ds ≤ limit) :
    takeDigits limit n (ds ++ r) = (decimalFrom n ds, ds.length, r) := by
  induction ds generalizing n with
  | nil =>
    rcases r with _ | ⟨c, r⟩
    · rfl
    · have hc : digit? c = none := by simpa [isDigit] using hr c rfl
      simp [takeDigits, hc, decimalFrom]
  | cons c ds ih =>
    have hc := digit?_of_isDigit (h c (by simp))
    have hfits : ¬ limit < n * 10 + (c.toNat - '0'.toNat) := by
      have := le_decimalFrom (n * 10 + (c.toNat - '0'.toNat)) ds
      rw [decimalFrom_cons] at hle
      omega
    rw [List.cons_append, takeDigits, hc]
    simp only [hfits, if_false, ih (fun d hd => h d (by simp [hd])) hle]
    rfl

lemma number_decimal (negative : Bool) (h : Whole ds) (hle : decimal ds ≤ maxSignificand) :
    number negative ds = .ok (wholeNumber negative (decimal ds), []) := by
  have hend : NoDigit [] := ends_nil.noDigit
  have htake : takeDigits maxSignificand 0 (ds ++ []) = (decimal ds, ds.length, []) :=
    takeDigits_decimal h.digits hend hle
  have hnumber := number_whole negative h hend
  rw [List.append_nil] at hnumber htake
  rw [hnumber, unsignedNumber, htake]
  rfl

/-- Digits that are all taken stand for the number they were read as. -/
lemma decimal_of_takeDigits {m k : Nat} (h : Digits ds) (hn : n ≤ limit)
    (htake : takeDigits limit n ds = (m, k, [])) : m = decimalFrom n ds ∧ m ≤ limit := by
  induction ds generalizing n m k with
  | nil =>
    obtain ⟨rfl, -⟩ : n = m ∧ 0 = k := by simpa [takeDigits] using htake
    exact ⟨rfl, hn⟩
  | cons c ds ih =>
    have hc := digit?_of_isDigit (h c (by simp))
    rw [takeDigits, hc] at htake
    by_cases hfits : limit < n * 10 + (c.toNat - '0'.toNat)
    · simp only [hfits, if_true, Prod.mk.injEq, reduceCtorEq, and_false] at htake
    · simp only [hfits, if_false, Prod.mk.injEq] at htake
      obtain ⟨rfl, rfl, hrest⟩ := htake
      rw [decimalFrom_cons]
      refine ih (k := (takeDigits limit (n * 10 + (c.toNat - '0'.toNat)) ds).2.1)
        (fun d hd => h d (by simp [hd])) (by omega) ?_
      rw [← hrest]

/-- A number is a double, or the whole text is its digits. -/
lemma number_sound {negative : Bool} {t : List Char} {j : Json}
    (h : number negative t = .ok (j, [])) :
    (∃ x, j = num x) ∨
      Whole t ∧ decimal t ≤ maxSignificand ∧ j = wholeNumber negative (decimal t) := by
  obtain ⟨ds, r, rfl, hds, hr⟩ := (whole_or_refused t).resolve_right fun hno => hno.1 _ _ _ h
  obtain ⟨m, used, rest, hrest, -, htake⟩ := takeDigits_append maxSignificand 0 hds.digits
  have hread : unsignedNumber negative (ds ++ r) = afterWhole negative m rest.length r := by
    simp only [unsignedNumber, htake r hr, dropDigits_append hrest hr]
    rfl
  rw [number_whole negative hds hr, hread] at h
  by_cases hplain : Plain r
  · rw [afterWhole_plain _ _ _ hplain] at h
    obtain ⟨hj, rfl⟩ := map_pair_eq_ok.1 h
    split at hj
    · next hlen =>
      obtain rfl := List.eq_nil_of_length_eq_zero hlen
      have hall := htake [] ends_nil.noDigit
      rw [List.append_nil, List.append_nil] at hall
      obtain ⟨rfl, hle⟩ := decimal_of_takeDigits hds.digits (Nat.zero_le _) hall
      rw [List.append_nil]
      exact .inr ⟨hds, hle, (Except.ok.inj hj).symm⟩
    · rcases hx : scaled negative m rest.length with e | x
      · simp [hx, Except.map] at hj
      · exact .inl ⟨x, by simpa [hx, Except.map, eq_comm] using hj⟩
  · obtain ⟨cs, rfl | rfl | rfl⟩ := exists_of_not_plain hplain
    all_goals
      obtain ⟨x, -, rfl⟩ := map_num_eq_ok.1 h
      exact .inl ⟨x, rfl⟩

end Decimal

/-! ### Scalars -/

section Scalars

variable {t s : List Char} {j : Json}

lemma depth_of_atomic (h : Atomic j) : j.depth = 0 := by
  cases j with
  | arr => exact h.elim
  | obj => exact h.elim
  | _ => rfl

lemma Scalar.piece (h : Scalar t j) (depth : Nat) : Piece (value depth) t j := by
  refine ⟨h.text.valueText, fun r hr => ?_⟩
  rcases depth with _ | d
  · exact h.reads r hr _ _
  · rw [value_succ]
    exact h.reads r hr _ _

lemma scalar_negative (h : number true t = .ok (j, [])) : Scalar ('-' :: t) j := by
  have hatomic := atomic_of_number h
  obtain ⟨u, rfl, hu⟩ := number_local h
  rw [List.append_nil]
  refine ⟨hatomic, fun r hr _ _ => (hu r hr).2, fun r hr _ _ => ?_⟩
  exact liftText_eq_ok.2 (hu r hr).1

lemma scalar_unsigned (h : number false t = .ok (j, [])) : Scalar t j := by
  have hatomic := atomic_of_number h
  obtain ⟨c, u, hc, rfl⟩ : ∃ c u, isDigit c ∧ t = c :: u := by
    obtain ⟨ds, r, rfl, hds, -⟩ :=
      (whole_or_refused t).resolve_right fun hno => hno.1 _ _ _ h
    obtain ⟨c, ds, rfl⟩ := List.exists_cons_of_ne_nil hds.nonempty
    exact ⟨c, ds ++ r, hds.digits c (by simp), rfl⟩
  obtain ⟨v, hv, htext⟩ := number_local h
  obtain rfl : v = c :: u := by simpa using hv.symm
  refine ⟨hatomic, fun r hr _ _ => ?_, fun r hr _ _ => ?_⟩
  · exact (skipWith_digit hc).trans (htext r hr).2
  · exact (valueWith_digit hc).trans (liftText_eq_ok.2 (htext r hr).1)

lemma scalar_string (h : StringText t s) : Scalar ('"' :: t) (str (String.ofList s)) where
  atomic := trivial
  text := fun r _ _ _ => h.skips r
  reads r _ _ _ := liftText_string_eq_ok.2 ⟨s, h.reads r, rfl⟩

end Scalars

/-! ### Values -/

mutual

/-- The text stands for the value. A number that is no integer of 64 bits stands for a double,
and must be in its range. -/
inductive Denotes : List Char → Json → Prop
  | blanks {b t : List Char} {j : Json} : Blanks b → Denotes t j → Denotes (b ++ t) j
  | null : Denotes "null".toList null
  | yes : Denotes "true".toList (bool true)
  | no : Denotes "false".toList (bool false)
  | natural {ds : List Char} :
    Whole ds → decimal ds ≤ maxSignificand → Denotes ds (int (decimal ds))
  | negative {ds : List Char} : Whole ds → 0 < decimal ds → decimal ds ≤ maxInt + 1 →
    Denotes ('-' :: ds) (int (-(decimal ds : Int)))
  | double {t : List Char} {x : Double} : number false t = .ok (num x, []) → Denotes t (num x)
  | negativeDouble {t : List Char} {x : Double} :
    number true t = .ok (num x, []) → Denotes ('-' :: t) (num x)
  | string {t s : List Char} : Quoted t s → Denotes ('"' :: (t ++ ['"'])) (str (String.ofList s))
  | list {t : List Char} {js : List Json} : DenotesItems true t js → Denotes ('[' :: t) (arr js)
  | object {t : List Char} {es : List (String × Json)} :
    DenotesEntries true t es → Denotes ('{' :: t) (obj es)

/-- The rest of a list after its bracket or after an item. -/
inductive DenotesItems : Bool → List Char → List Json → Prop
  | done {first : Bool} {b : List Char} : Blanks b → DenotesItems first (b ++ [']']) []
  | more {first : Bool} {p t s : List Char} {j : Json} {js : List Json} :
    Lead first p → Denotes t j → DenotesItems false s js →
      DenotesItems first (p ++ (t ++ s)) (j :: js)

/-- The rest of an object after its bracket or after an entry. -/
inductive DenotesEntries : Bool → List Char → List (String × Json) → Prop
  | done {first : Bool} {b : List Char} : Blanks b → DenotesEntries first (b ++ ['}']) []
  | more {first : Bool} {p b q k b' t s : List Char} {j : Json} {es : List (String × Json)} :
    Lead first p → Blanks b → Quoted q k → Blanks b' → Denotes t j → DenotesEntries false s es →
      DenotesEntries first (p ++ (b ++ '"' :: ((q ++ ['"']) ++ (b' ++ ':' :: (t ++ s)))))
        ((String.ofList k, j) :: es)

end

/-- A whole text stands for the value, blanks after it left aside. -/
def Spells (text : String) (j : Json) : Prop :=
  ∃ t b, text.toList = t ++ b ∧ Denotes t j ∧ Blanks b

/-- The text is read as the value wherever there is room for its brackets. -/
def ReadsAs (t : List Char) (j : Json) : Prop :=
  ∀ depth, j.depth ≤ depth → Piece (value depth) t j

section Values

variable {s t : List Char} {j : Json}

lemma Scalar.readsAs (h : Scalar t j) : ReadsAs t j := fun depth _ => h.piece depth

lemma ReadsAs.text (h : ReadsAs t j) : ValueText t := (h j.depth (le_refl _)).text

lemma ReadsAs.whole (h : ReadsAs t j) {depth : Nat} (hd : j.depth ≤ depth) :
    value depth t = .ok (j, []) := (reader_value depth).reads_iff.2 (h depth hd)

lemma ReadsAs.blanks {b : List Char} (h : ReadsAs t j) (hb : Blanks b) : ReadsAs (b ++ t) j := by
  intro depth hd
  refine ⟨h.text.blanks hb, fun r hr => ?_⟩
  rw [List.append_assoc, ← (reader_value depth).blanks, skipBlanks_append hb,
    (reader_value depth).blanks]
  exact (h depth hd).reads r hr

lemma readsAs_list {ts : List (List Char)} {js : List Json} (hs : ItemsText true s ts)
    (h : List.Forall₂ ReadsAs ts js) : ReadsAs ('[' :: s) (arr js) := by
  intro depth hd
  rw [Json.depth] at hd
  obtain ⟨d, rfl⟩ : ∃ d, depth = d + 1 := ⟨depth - 1, by omega⟩
  have hitems : List.Forall₂ (FromText.At d value) ts js := by
    have hroom : ∀ i ∈ js, i.depth ≤ d := fun i hi => by
      have := depth_le_of_mem_items hi
      omega
    exact forall₂_imp_of_mem h fun t i hi hread => hread.whole (hroom i hi)
  have hvalue := (FromText.value_list_whole blanks_nil hs).2 ⟨js, rfl, hitems⟩
  exact (reader_value _).reads_iff.1 hvalue

lemma readsAs_object {ts : List (String × List Char)} {es : List (String × Json)}
    (hs : EntriesText Named true s ts)
    (h : List.Forall₂ (fun t e => t.1 = e.1 ∧ ReadsAs t.2 e.2) ts es) :
    ReadsAs ('{' :: s) (obj es) := by
  intro depth hd
  rw [Json.depth] at hd
  obtain ⟨d, rfl⟩ : ∃ d, depth = d + 1 := ⟨depth - 1, by omega⟩
  have hentries : List.Forall₂ (fun t e => t.1 = e.1 ∧ FromText.At d value t.2 e.2) ts es := by
    have hroom : ∀ e ∈ es, e.2.depth ≤ d := fun e he => by
      have := depth_le_of_mem_entries he
      omega
    exact forall₂_imp_of_mem h fun t e he hread => ⟨hread.1, hread.2.whole (hroom e he)⟩
  have hvalue := (FromText.value_object_whole blanks_nil hs).2 ⟨es, rfl, hentries⟩
  exact (reader_value _).reads_iff.1 hvalue

/-- **A text of the grammar is read as the value it stands for.** -/
theorem Denotes.readsAs (h : Denotes t j) : ReadsAs t j := by
  -- by induction on the grammar; of a list or object it tells how its text is cut into parts
  refine @Denotes.rec (fun t j _ => ReadsAs t j)
    (fun first s js _ => ∃ ts, ItemsText first s ts ∧ List.Forall₂ ReadsAs ts js)
    (fun first s es _ => ∃ ts, EntriesText Named first s ts ∧
      List.Forall₂ (fun t e => t.1 = e.1 ∧ ReadsAs t.2 e.2) ts es)
    ?blanks ?null ?yes ?no ?natural ?negative ?double ?negativeDouble ?string ?list ?object
    ?noItems ?item ?noEntries ?entry t j h
  case blanks => exact fun hb _ ih => ih.blanks hb
  case null =>
    have hword : Scalar ('n' :: "ull".toList) Json.null :=
      scalar_word trivial (fun _ _ _ => rfl) fun _ _ _ => rfl
    exact hword.readsAs
  case yes =>
    have hword : Scalar ('t' :: "rue".toList) (bool true) :=
      scalar_word trivial (fun _ _ _ => rfl) fun _ _ _ => rfl
    exact hword.readsAs
  case no =>
    have hword : Scalar ('f' :: "alse".toList) (bool false) :=
      scalar_word trivial (fun _ _ _ => rfl) fun _ _ _ => rfl
    exact hword.readsAs
  case natural => exact fun hds hle => (scalar_unsigned (number_decimal false hds hle)).readsAs
  case negative =>
    intro ds hds hpos hle
    have hfits : decimal ds ≤ maxSignificand := by
      unfold maxInt at hle
      unfold maxSignificand
      omega
    have hwhole : wholeNumber true (decimal ds) = int (-(decimal ds : Int)) := by
      rw [wholeNumber, if_pos rfl, if_neg (by omega)]
    exact (scalar_negative (hwhole ▸ number_decimal true hds hfits)).readsAs
  case double => exact fun hx => (scalar_unsigned hx).readsAs
  case negativeDouble => exact fun hx => (scalar_negative hx).readsAs
  case string => exact fun hs => (scalar_string hs.stringText).readsAs
  case list =>
    rintro s js - ⟨ts, hs, hall⟩
    exact readsAs_list hs hall
  case object =>
    rintro s es - ⟨ts, hs, hall⟩
    exact readsAs_object hs hall
  case noItems => exact fun hb => ⟨[], .done hb, .nil⟩
  case item =>
    rintro first p t s j js hp - - ht ⟨ts, hs, hall⟩
    exact ⟨t :: ts, .more hp ht.text hs, .cons ht hall⟩
  case noEntries => exact fun hb => ⟨[], .done hb, .nil⟩
  case entry =>
    rintro first p b q k b' t s j es hp hb hq hb' - - ht ⟨ts, hs, hall⟩
    have hname : Named (q ++ ['"']) (String.ofList k) := ⟨k, hq.stringText, rfl⟩
    exact ⟨(String.ofList k, t) :: ts, .more hp hb hname hb' ht.text hs, .cons ⟨rfl, ht⟩ hall⟩

lemma denotes_negative (h : number true t = .ok (j, [])) : Denotes ('-' :: t) j := by
  obtain ⟨x, rfl⟩ | ⟨hwhole, hle, rfl⟩ := number_sound h
  · exact .negativeDouble h
  · unfold wholeNumber at h ⊢
    rw [if_pos rfl] at h ⊢
    split at h
    · next hout =>
      rw [if_pos hout]
      exact .negativeDouble h
    · next hin =>
      rw [if_neg hin]
      exact .negative hwhole (by omega) (by omega)

lemma denotes_unsigned (h : number false t = .ok (j, [])) : Denotes t j := by
  obtain ⟨x, rfl⟩ | ⟨hwhole, hle, rfl⟩ := number_sound h
  · exact .double h
  · exact .natural hwhole hle

/-- What is read is a text of the grammar, or a bracket was opened. -/
lemma valueWith_sound {list object : Scan Json} {cs r : List Char}
    (h : valueWith list object cs = .ok (j, r)) :
    (∃ t, cs = t ++ r ∧ Denotes t j ∧ j.depth = 0) ∨
      ∃ b s, Blanks b ∧ (cs = b ++ '[' :: s ∧ list s = .ok (j, r) ∨
        cs = b ++ '{' :: s ∧ object s = .ok (j, r)) := by
  obtain ⟨b, hb, hcs⟩ := exists_blanks cs
  have scalar (t : List Char) (ht : skipBlanks cs = t ++ r) (hj : Denotes t j)
      (hdepth : j.depth = 0) : ∃ t, cs = t ++ r ∧ Denotes t j ∧ j.depth = 0 := by
    refine ⟨b ++ t, ?_, .blanks hb hj, hdepth⟩
    rw [List.append_assoc, ← ht]
    exact hcs
  rw [valueWith] at h
  split at h
  · simp at h
  · next r' heq =>
    obtain ⟨rfl, rfl⟩ := liftText_word_eq_ok.1 h
    exact .inl (scalar ('n' :: "ull".toList) heq .null rfl)
  · next r' heq =>
    obtain ⟨rfl, rfl⟩ := liftText_word_eq_ok.1 h
    exact .inl (scalar ('t' :: "rue".toList) heq .yes rfl)
  · next r' heq =>
    obtain ⟨rfl, rfl⟩ := liftText_word_eq_ok.1 h
    exact .inl (scalar ('f' :: "alse".toList) heq .no rfl)
  · next r' heq =>
    rw [liftText_eq_ok] at h
    have hflat := depth_of_atomic (atomic_of_number h)
    obtain ⟨t, rfl, ht⟩ := number_local h
    have hwhole := (ht [] ends_nil).1
    rw [List.append_nil] at hwhole
    exact .inl (scalar ('-' :: t) heq (denotes_negative hwhole) hflat)
  · next r' heq =>
    obtain ⟨s, hs, rfl⟩ := liftText_string_eq_ok.1 h
    obtain ⟨t, rfl, ht⟩ := string_sound hs
    exact .inl (scalar ('"' :: (t ++ ['"'])) (by simp [heq]) (.string ht) rfl)
  · next r' heq => exact .inr ⟨b, r', hb, .inl ⟨heq ▸ hcs, h⟩⟩
  · next r' heq => exact .inr ⟨b, r', hb, .inr ⟨heq ▸ hcs, h⟩⟩
  · next c r' hn ht hf hm hq hl ho heq =>
    split at h
    · next hd =>
      rw [liftText_eq_ok] at h
      have hflat := depth_of_atomic (atomic_of_number h)
      obtain ⟨t, hrt, htext⟩ := number_local h
      have hwhole := (htext [] ends_nil).1
      rw [List.append_nil] at hwhole
      exact .inl (scalar t (heq.trans hrt) (denotes_unsigned hwhole) hflat)
    · simp at h

lemma denotesItems_of_forall₂ {first : Bool} {ts : List (List Char)} {js : List Json}
    (hs : ItemsText first s ts) (h : List.Forall₂ Denotes ts js) : DenotesItems first s js := by
  induction hs generalizing js with
  | done hb =>
    obtain rfl : js = [] := by simpa using h
    exact .done hb
  | more hp _ _ ih =>
    cases h with
    | cons hj hjs => exact .more hp hj (ih hjs)

lemma denotesEntries_of_forall₂ {first : Bool} {ts : List (String × List Char)}
    {es : List (String × Json)} (hs : EntriesText Named first s ts)
    (h : List.Forall₂ (fun t e => t.1 = e.1 ∧ Denotes t.2 e.2) ts es) :
    DenotesEntries first s es := by
  induction hs generalizing es with
  | done hb =>
    obtain rfl : es = [] := by simpa using h
    exact .done hb
  | more hp hb hname hb' _ _ ih =>
    obtain ⟨k, hk, rfl⟩ := hname
    have hquoted := hk.reads []
    rw [List.append_nil] at hquoted
    obtain ⟨q, rfl, hq⟩ := string_sound hquoted
    cases h with
    | @cons _ e _ _ he hes =>
      obtain ⟨key, j⟩ := e
      obtain ⟨rfl, hj⟩ := he
      exact .more hp hb hq hb' hj (ih hes)

theorem value_sound {depth : Nat} {cs r : List Char} (h : value depth cs = .ok (j, r)) :
    ∃ t, cs = t ++ r ∧ Denotes t j ∧ j.depth ≤ depth := by
  induction depth generalizing cs r j with
  | zero =>
    obtain ⟨t, ht, hj, hflat⟩ | ⟨b, s, -, ⟨-, hs⟩ | ⟨-, hs⟩⟩ := valueWith_sound h
    · exact ⟨t, ht, hj, hflat.le⟩
    · simp at hs
    · simp at hs
  | succ d ih =>
    rw [value_succ] at h
    obtain ⟨t, ht, hj, hflat⟩ | ⟨b, s, hb, ⟨rfl, hs⟩ | ⟨rfl, hs⟩⟩ := valueWith_sound h
    · exact ⟨t, ht, hj, by omega⟩
    · obtain ⟨⟨js, r'⟩, hjs, hend⟩ := bind_eq_ok.1 hs
      obtain ⟨rfl, rfl⟩ : arr js = j ∧ r' = r := by simpa using hend
      have hitem (cs : List Char) (i : Json) (r : List Char)
          (hread : value d (skipBlanks cs) = .ok (i, r)) :
          ∃ t, cs = t ++ r ∧ ValueText t ∧ Denotes t i ∧ i.depth ≤ d := by
        rw [(reader_value d).blanks] at hread
        obtain ⟨t, ht, hi⟩ := ih hread
        exact ⟨t, ht, hi.1.readsAs.text, hi⟩
      obtain ⟨u, ts, rfl, hu, hall⟩ := items_sound hitem hjs
      refine ⟨b ++ '[' :: u, by simp, .blanks hb (.list ?_), Nat.succ_le_succ (depthItems_le ?_)⟩
      · exact denotesItems_of_forall₂ hu (hall.imp fun _ _ hi => hi.1)
      · intro i hi
        obtain ⟨t, -, -, hroom⟩ := exists_of_mem_right hall i hi
        exact hroom
    · obtain ⟨⟨acc, r'⟩, hacc, hend⟩ := bind_eq_ok.1 hs
      obtain ⟨rfl, rfl⟩ : obj acc.reverse = j ∧ r' = r := by simpa using hend
      obtain ⟨u, ts, rfl, hu, hsteps⟩ := foldEntries_sound (entryReader_value (reader_value d)) hacc
      obtain ⟨es, rfl, hall⟩ := FromText.steps_value.1 hsteps
      have hentries : List.Forall₂
          (fun t e => t.1 = e.1 ∧ Denotes t.2 e.2 ∧ e.2.depth ≤ d) ts es := by
        refine hall.imp fun t e he => ⟨he.1, ?_⟩
        obtain ⟨v, hv, hj⟩ := ih he.2
        rwa [hv, List.append_nil]
      rw [List.append_nil, List.reverse_reverse]
      refine ⟨b ++ '{' :: u, by simp, .blanks hb (.object ?_),
        Nat.succ_le_succ (depthEntries_le ?_)⟩
      · exact denotesEntries_of_forall₂ hu (hentries.imp fun _ _ he => ⟨he.1, he.2.1⟩)
      · intro e he
        obtain ⟨t, -, -, -, hroom⟩ := exists_of_mem_right hentries e he
        exact hroom

/-- **Reading a value is the grammar**: a text is read as a value exactly if it stands for it and
the value has no more brackets open than there is room for. -/
theorem value_eq_ok_iff {depth : Nat} :
    value depth t = .ok (j, []) ↔ Denotes t j ∧ j.depth ≤ depth := by
  constructor
  · intro h
    obtain ⟨u, rfl, hj⟩ := value_sound h
    rwa [List.append_nil]
  · rintro ⟨hj, hroom⟩
    exact hj.readsAs.whole hroom

end Values

end ZodGraph.Json
