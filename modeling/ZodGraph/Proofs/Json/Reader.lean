import ZodGraph.Json.FromText
import ZodGraph.Proofs.Json.Record

/-!
Readers of typed documents in text read one value from the front: what they give depends on the
text of that value alone. From this follows what a list, an object and a record read as, given
the texts of their parts.
-/

namespace ZodGraph.Json

/-- The text is one value, and the reader gives the result for it whatever ends it. -/
structure Piece {α : Type} (scan : Scan α) (t : List Char) (a : α) : Prop where
  text : ValueText t
  reads (r : List Char) : Ends r → scan (t ++ r) = .ok (a, r)

/-- A reader of one value. -/
structure Reader {α : Type} (scan : Scan α) : Prop where
  blanks (cs : List Char) : scan (skipBlanks cs) = scan cs
  piece {cs r : List Char} {a : α} : scan cs = .ok (a, r) → ∃ t, cs = t ++ r ∧ Piece scan t a

section Reader

variable {α : Type} {scan : Scan α} {t cs r : List Char} {a : α}

lemma Reader.reads_iff (h : Reader scan) : scan t = .ok (a, []) ↔ Piece scan t a := by
  constructor
  · intro ht
    obtain ⟨t', rfl, hpiece⟩ := h.piece ht
    simpa using hpiece
  · intro hpiece
    simpa using hpiece.reads [] ends_nil

lemma Reader.piece_skipBlanks (h : Reader scan) (hread : scan (skipBlanks cs) = .ok (a, r)) :
    ∃ t, cs = t ++ r ∧ ValueText t ∧ Piece scan t a := by
  rw [h.blanks] at hread
  obtain ⟨t, ht, hpiece⟩ := h.piece hread
  exact ⟨t, ht, hpiece.text, hpiece⟩

/-- The items of a list are read from the texts of the items. -/
lemma Reader.items_iff (h : Reader scan) {s : List Char} {ts : List (List Char)} {first : Bool}
    (hs : ItemsText first s ts) {fuel r' : List Char} (hfuel : s.length ≤ fuel.length)
    {xs : List α} :
    items scan fuel first (s ++ r) = .ok (xs, r') ↔ r' = r ∧ List.Forall₂ (Piece scan) ts xs := by
  constructor
  · intro hread
    obtain ⟨s', ts', heq, hs', hall⟩ := items_sound (fun _ _ _ => h.piece_skipBlanks) hread
    obtain ⟨rfl, rfl⟩ := hs.unique hs' heq
    exact ⟨rfl, hall⟩
  · rintro ⟨rfl, hall⟩
    refine items_complete hs (hall.imp fun t x hpiece r hr => ?_) hfuel
    rw [h.blanks]
    exact hpiece.reads r hr

lemma Reader.items_whole (h : Reader scan) {s : List Char} {ts : List (List Char)}
    (hs : ItemsText true s ts) {xs : List α} :
    items scan s true s = .ok (xs, []) ↔
      List.Forall₂ (fun t x => scan t = .ok (x, [])) ts xs := by
  have hitems : items scan s true (s ++ []) = .ok (xs, []) ↔ _ := h.items_iff hs (le_refl s.length)
  simp only [List.append_nil, true_and] at hitems
  simp only [hitems, h.reads_iff]

/-- The entries of an object are folded over their keys and texts. -/
lemma EntryReader.foldEntries_iff {σ : Type} {entry : σ → String → Scan σ}
    {step : σ → String × List Char → σ → Prop} (h : EntryReader entry step) {s : List Char}
    {es : List (String × List Char)} {first : Bool} (hs : EntriesText Named first s es)
    {fuel r' : List Char} (hfuel : s.length ≤ fuel.length) {acc acc' : σ} :
    foldEntries entry fuel first acc (s ++ r) = .ok (acc', r') ↔
      r' = r ∧ Steps step acc es acc' := by
  constructor
  · intro hread
    obtain ⟨s', es', heq, hs', hsteps⟩ := foldEntries_sound h hread
    obtain ⟨rfl, rfl⟩ := hs.unique hs' heq
    exact ⟨rfl, hsteps⟩
  · rintro ⟨rfl, hsteps⟩
    exact foldEntries_complete h hs hsteps hfuel

lemma EntryReader.foldEntries_whole {σ : Type} {entry : σ → String → Scan σ}
    {step : σ → String × List Char → σ → Prop} (h : EntryReader entry step) {s : List Char}
    {es : List (String × List Char)} (hs : EntriesText Named true s es) {acc acc' : σ} :
    foldEntries entry s true acc s = .ok (acc', []) ↔ Steps step acc es acc' := by
  have hfold : foldEntries entry s true acc (s ++ []) = .ok (acc', []) ↔ _ :=
    h.foldEntries_iff hs (le_refl s.length)
  simpa only [List.append_nil, true_and] using hfold

end Reader

/-! ### Values -/

section Value

variable {t cs r : List Char} {j : Json} {list object : Scan Json}

lemma valueWith_blanks {b : List Char} (h : Blanks b) :
    valueWith list object (b ++ cs) = valueWith list object cs := by
  rw [valueWith, skipBlanks_append h, valueWith]

lemma valueWith_digit {c : Char} (h : isDigit c) :
    valueWith list object (c :: r) = liftText (number false (c :: r)) := by
  have hne := not_mem_of_isDigit h
  rw [valueWith, skipBlanks_cons (isBlank_of_isDigit h)]
  split <;> simp_all

/-- A scalar's text, and the value it reads as. -/
structure Scalar (t : List Char) (j : Json) : Prop where
  atomic : Atomic j
  text : ScalarText t
  reads (r : List Char) : Ends r → ∀ list object, valueWith list object (t ++ r) = .ok (j, r)

lemma Scalar.blanks {b : List Char} (h : Scalar t j) (hb : Blanks b) : Scalar (b ++ t) j where
  atomic := h.atomic
  text := h.text.blanks hb
  reads r hr list object := by
    rw [List.append_assoc, valueWith_blanks hb]
    exact h.reads r hr list object

lemma liftText_word_eq_ok {ws : List Char} {j' : Json} :
    liftText ((word ws cs).map fun r => (j', r)) = .ok (j, r) ↔ j = j' ∧ cs = ws ++ r := by
  rw [liftText_eq_ok, ← word_eq_ok_iff]
  rcases word ws cs with e | r'
  · simp [Except.map]
  · simp [Except.map, eq_comm]

lemma liftText_string_eq_ok :
    liftText ((string cs).map fun (s, r) => (str (String.ofList s), r)) = .ok (j, r) ↔
      ∃ s, string cs = .ok (s, r) ∧ j = str (String.ofList s) := by
  rw [liftText_eq_ok]
  rcases string cs with e | ⟨s, r'⟩
  · simp [Except.map]
  · simp [Except.map, eq_comm, and_comm]

lemma scalar_word {c : Char} {ws : List Char} (hj : Atomic j)
    (hskip : ∀ r list object, skipWith list object (c :: r) = word ws r)
    (hread : ∀ r list object,
      valueWith list object (c :: r) = liftText ((word ws r).map fun r => (j, r))) :
    Scalar (c :: ws) j where
  atomic := hj
  text := scalarText_word hskip
  reads r _ list object := (hread (ws ++ r) list object).trans (liftText_word_eq_ok.2 ⟨rfl, rfl⟩)

/-- What is read is a scalar, or a bracket was opened. -/
lemma valueWith_cases (h : valueWith list object cs = .ok (j, r)) :
    (∃ t, cs = t ++ r ∧ Scalar t j) ∨
      ∃ b s, Blanks b ∧ (cs = b ++ '[' :: s ∧ list s = .ok (j, r) ∨
        cs = b ++ '{' :: s ∧ object s = .ok (j, r)) := by
  obtain ⟨b, hb, hcs⟩ := exists_blanks cs
  have scalar (t : List Char) (ht : skipBlanks cs = t ++ r) (hs : Scalar t j) :
      ∃ t, cs = t ++ r ∧ Scalar t j := by
    refine ⟨b ++ t, ?_, hs.blanks hb⟩
    rw [List.append_assoc, ← ht]
    exact hcs
  rw [valueWith] at h
  split at h
  · simp at h
  · next r' heq =>
    obtain ⟨rfl, rfl⟩ := liftText_word_eq_ok.1 h
    exact .inl (scalar _ heq (scalar_word trivial (fun _ _ _ => rfl) fun _ _ _ => rfl))
  · next r' heq =>
    obtain ⟨rfl, rfl⟩ := liftText_word_eq_ok.1 h
    exact .inl (scalar _ heq (scalar_word trivial (fun _ _ _ => rfl) fun _ _ _ => rfl))
  · next r' heq =>
    obtain ⟨rfl, rfl⟩ := liftText_word_eq_ok.1 h
    exact .inl (scalar _ heq (scalar_word trivial (fun _ _ _ => rfl) fun _ _ _ => rfl))
  · next r' heq =>
    rw [liftText_eq_ok] at h
    have hatomic := atomic_of_number h
    obtain ⟨t, rfl, ht⟩ := number_local h
    refine .inl (scalar ('-' :: t) heq ⟨hatomic, fun r hr _ _ => (ht r hr).2, fun r hr _ _ => ?_⟩)
    exact liftText_eq_ok.2 (ht r hr).1
  · next r' heq =>
    obtain ⟨s, hs, rfl⟩ := liftText_string_eq_ok.1 h
    obtain ⟨t, rfl, ht⟩ := string_local hs
    refine .inl (scalar ('"' :: t) heq ⟨trivial, fun r _ _ _ => ht.skips r, fun r _ _ _ => ?_⟩)
    exact liftText_string_eq_ok.2 ⟨s, ht.reads r, rfl⟩
  · next r' heq => exact .inr ⟨b, r', hb, .inl ⟨heq ▸ hcs, h⟩⟩
  · next r' heq => exact .inr ⟨b, r', hb, .inr ⟨heq ▸ hcs, h⟩⟩
  · next c r' hn ht hf hm hq hl ho heq =>
    split at h
    · next hd =>
      rw [liftText_eq_ok] at h
      have hatomic := atomic_of_number h
      obtain ⟨t, hrt, htext⟩ := number_local h
      rcases t with _ | ⟨c', t⟩
      · have := (htext [] ends_nil).1
        simp [number] at this
      · obtain ⟨rfl, rfl⟩ : c = c' ∧ r' = t ++ r := by simpa using hrt
        refine .inl (scalar (c :: t) heq ⟨hatomic, fun r hr _ _ => ?_, fun r hr _ _ => ?_⟩)
        · exact (skipWith_digit hd).trans (htext r hr).2
        · exact (valueWith_digit hd).trans (liftText_eq_ok.2 (htext r hr).1)
    · simp at h

/-- A reader that leaves the brackets to functions local to what they read is a reader. -/
lemma reader_valueWith
    (hlist : ∀ s r j, list s = .ok (j, r) → ∃ u, s = u ++ r ∧ ValueText ('[' :: u) ∧
      ∀ r', list (u ++ r') = .ok (j, r'))
    (hobject : ∀ s r j, object s = .ok (j, r) → ∃ u, s = u ++ r ∧ ValueText ('{' :: u) ∧
      ∀ r', object (u ++ r') = .ok (j, r')) :
    Reader (valueWith list object) where
  blanks cs := by simp only [valueWith, skipBlanks_skipBlanks]
  piece {cs r j} h := by
    obtain ⟨t, rfl, ht⟩ | ⟨b, s, hb, ⟨rfl, hs⟩ | ⟨rfl, hs⟩⟩ := valueWith_cases h
    · exact ⟨t, rfl, ht.text.valueText, fun r hr => ht.reads r hr _ _⟩
    · obtain ⟨u, rfl, htext, hread⟩ := hlist s r j hs
      refine ⟨b ++ '[' :: u, by simp, htext.blanks hb, fun r' _ => ?_⟩
      rw [List.append_assoc, valueWith_blanks hb]
      exact hread r'
    · obtain ⟨u, rfl, htext, hread⟩ := hobject s r j hs
      refine ⟨b ++ '{' :: u, by simp, htext.blanks hb, fun r' _ => ?_⟩
      rw [List.append_assoc, valueWith_blanks hb]
      exact hread r'

/-- One entry of an object kept as it stands. -/
def ValueStep (depth : Nat) (es : List (String × Json)) (e : String × List Char)
    (es' : List (String × Json)) : Prop :=
  ∃ v, value depth e.2 = .ok (v, []) ∧ es' = (e.1, v) :: es

/-- The reader of one entry of an object kept as it stands. -/
def valueEntry (depth : Nat) (es : List (String × Json)) (k : String) :
    Scan (List (String × Json)) := fun r => do
  let r ← liftText (colon r)
  let (v, r) ← value depth r
  return ((k, v) :: es, r)

lemma value_succ (depth : Nat) :
    value (depth + 1) =
      valueWith
        (fun r => do
          let (xs, r) ← items (value depth) r true r
          return (arr xs, r))
        (fun r => do
          let (es, r) ← foldEntries (valueEntry depth) r true [] r
          return (obj es.reverse, r)) := rfl

lemma entryReader_value {depth : Nat} (h : Reader (value depth)) :
    EntryReader (valueEntry depth) (ValueStep depth) where
  sound {acc acc' k cs r} hread := by
    obtain ⟨cs', hcolon, hread⟩ := bind_eq_ok.1 hread
    obtain ⟨⟨v, r'⟩, hv, hend⟩ := bind_eq_ok.1 hread
    obtain ⟨rfl, rfl⟩ : (k, v) :: acc = acc' ∧ r' = r := by simpa using hend
    obtain ⟨b, hb, rfl⟩ := colon_eq_ok (liftText_eq_ok.1 hcolon)
    obtain ⟨t, rfl, ht⟩ := h.piece hv
    exact ⟨b, t, hb, rfl, ht.text, v, h.reads_iff.2 ht, rfl⟩
  complete {acc acc' k b t r} hb _ hr hstep := by
    obtain ⟨v, hv, rfl⟩ := hstep
    have hpiece := h.reads_iff.1 hv
    simp only [valueEntry, colon_append hb, liftText_ok, ok_bind, hpiece.reads r hr, pure_eq_ok]

lemma value_append_list {b s : List Char} {depth : Nat} (h : Blanks b) :
    value (depth + 1) (b ++ '[' :: s) =
      items (value depth) s true s >>= fun (xs, r) => .ok (arr xs, r) := by
  rw [value_succ, valueWith_blanks h]
  rfl

lemma value_append_object {b s : List Char} {depth : Nat} (h : Blanks b) :
    value (depth + 1) (b ++ '{' :: s) =
      foldEntries (valueEntry depth) s true [] s >>= fun (es, r) => .ok (obj es.reverse, r) := by
  rw [value_succ, valueWith_blanks h]
  rfl

theorem reader_value (depth : Nat) : Reader (value depth) := by
  induction depth with
  | zero => exact reader_valueWith (fun _ _ _ h => by simp at h) fun _ _ _ h => by simp at h
  | succ depth ih =>
    rw [value_succ]
    refine reader_valueWith (fun s r j h => ?_) fun s r j h => ?_
    · obtain ⟨⟨xs, r'⟩, hxs, hend⟩ := bind_eq_ok.1 h
      obtain ⟨rfl, rfl⟩ : arr xs = j ∧ r' = r := by simpa using hend
      obtain ⟨u, ts, rfl, hu, hall⟩ := items_sound (fun _ _ _ => ih.piece_skipBlanks) hxs
      refine ⟨u, rfl, hu.valueText, fun r'' => ?_⟩
      rw [(ih.items_iff hu (by simp)).2 ⟨rfl, hall⟩]
      rfl
    · obtain ⟨⟨es, r'⟩, hes, hend⟩ := bind_eq_ok.1 h
      obtain ⟨rfl, rfl⟩ : obj es.reverse = j ∧ r' = r := by simpa using hend
      have hentry := entryReader_value ih
      obtain ⟨u, ks, rfl, hu, hsteps⟩ := foldEntries_sound hentry hes
      refine ⟨u, rfl, hu.valueText fun _ _ => Named.skipped, fun r'' => ?_⟩
      rw [(hentry.foldEntries_iff hu (by simp)).2 ⟨rfl, hsteps⟩]
      rfl

end Value

/-! ### Typed readers -/

namespace FromText

/-- The whole text reads as the value within a depth. -/
def At (depth : Nat) {α : Type} (p : FromText α) (t : List Char) (a : α) : Prop :=
  p depth t = .ok (a, [])

@[simp] lemma liftFault_eq_ok {α : Type} {x : Except Fault α} {a : α} :
    liftFault x = .ok a ↔ x = .ok a := by
  rcases x with e | a <;> simp [liftFault, Except.mapError]

lemma refuse_ne_ok {α : Type} {want : Expected} {cs : List Char} {a : α} :
    refuse want cs ≠ .ok a := by
  intro h
  obtain ⟨⟨j, r⟩, _, hthrow⟩ := bind_eq_ok.1 h
  simp at hthrow

lemma nested_eq_ok {α : Type} {depth : Nat} {body : Nat → Except ReadError α} {a : α} :
    nested depth body = .ok a ↔ ∃ d, depth = d + 1 ∧ body d = .ok a := by
  rcases depth with _ | d <;> simp [nested]

section Scalars

variable {α : Type} {want : Expected} {pick : Json → Option α}

lemma atom_eq_ok {depth : Nat} {cs r : List Char} {a : α} :
    atom want pick depth cs = .ok (a, r) ↔ ∃ j, head cs = .ok (j, r) ∧ pick j = some a := by
  rw [atom, bind_eq_ok]
  constructor
  · rintro ⟨⟨j, r'⟩, hj, hpick⟩
    rcases ha : pick j with _ | a'
    · simp [ha] at hpick
    · obtain ⟨rfl, rfl⟩ : a' = a ∧ r' = r := by simpa [ha] using hpick
      exact ⟨j, hj, ha⟩
  · rintro ⟨j, hj, ha⟩
    exact ⟨(j, r), hj, by simp [ha]⟩

lemma reader_atom (hlist : pick (arr []) = none) (hobject : pick (obj []) = none) (depth : Nat) :
    Reader (atom want pick depth) where
  blanks cs := by simp only [atom, head, valueWith, skipBlanks_skipBlanks]
  piece {cs r a} h := by
    obtain ⟨j, hj, ha⟩ := atom_eq_ok.1 h
    obtain ⟨t, rfl, ht⟩ | ⟨b, s, hb, ⟨rfl, hs⟩ | ⟨rfl, hs⟩⟩ := valueWith_cases hj
    · exact ⟨t, rfl, ht.text.valueText, fun r hr => atom_eq_ok.2 ⟨j, ht.reads r hr _ _, ha⟩⟩
    · obtain ⟨rfl, rfl⟩ : arr [] = j ∧ s = r := by simpa using hs
      simp [hlist] at ha
    · obtain ⟨rfl, rfl⟩ : obj [] = j ∧ s = r := by simpa using hs
      simp [hobject] at ha

lemma reader_string (depth : Nat) : Reader (string want depth) := reader_atom rfl rfl depth

lemma reader_flag (depth : Nat) : Reader (flag depth) := reader_atom rfl rfl depth

lemma reader_unit (depth : Nat) : Reader (unit depth) := reader_atom rfl rfl depth

lemma refine_eq_ok {β : Type} {p : FromText α} {f : α → Except Fault β} {depth : Nat}
    {cs r : List Char} {b : β} :
    Source.refine (m := FromText) p f depth cs = .ok (b, r) ↔
      ∃ a, p depth cs = .ok (a, r) ∧ f a = .ok b := by
  change (p depth cs >>= fun x => liftFault (f x.1) >>= fun b => .ok (b, x.2)) = _ ↔ _
  simp only [bind_eq_ok, Prod.exists, liftFault_eq_ok, Except.ok.injEq, Prod.mk.injEq]
  constructor
  · rintro ⟨a, r', ha, b', hb, rfl, rfl⟩
    exact ⟨a, ha, hb⟩
  · rintro ⟨a, ha, hb⟩
    exact ⟨a, r, ha, b, hb, rfl, rfl⟩

lemma reader_refine {β : Type} {p : FromText α} (f : α → Except Fault β) {depth : Nat}
    (h : Reader (p depth)) : Reader (Source.refine (m := FromText) p f depth) where
  blanks cs := congrArg (· >>= fun x => liftFault (f x.1) >>= fun b => .ok (b, x.2)) (h.blanks cs)
  piece {cs r b} hread := by
    obtain ⟨a, ha, hb⟩ := refine_eq_ok.1 hread
    obtain ⟨t, rfl, ht⟩ := h.piece ha
    exact ⟨t, rfl, ht.text, fun r hr => refine_eq_ok.2 ⟨a, ht.reads r hr, hb⟩⟩

end Scalars

section Choice

variable {α : Type} {options : List (String × α)} {cs r : List Char} {a : α} {depth : Nat}

lemma chosen_eq_ok (h : chosen options cs = .ok (a, r)) :
    ∃ q s, cs = q ++ r ∧ StringText q s ∧ ∀ r, chosen options (q ++ r) = .ok (a, r) := by
  obtain ⟨⟨s, r'⟩, hs, hpick⟩ := bind_eq_ok.1 h
  obtain ⟨a', ha, hend⟩ := bind_eq_ok.1 hpick
  obtain ⟨rfl, rfl⟩ : a' = a ∧ r' = r := by simpa using hend
  obtain ⟨q, rfl, hq⟩ := string_local (liftText_eq_ok.1 hs)
  refine ⟨q, s, rfl, hq, fun r => ?_⟩
  simp only [chosen, hq.reads r, liftText_ok, ok_bind, ha, pure_eq_ok]

lemma chosenKey_eq_ok (h : chosenKey options cs = .ok (a, r)) :
    ∃ b q s, Blanks b ∧ cs = b ++ '"' :: (q ++ r) ∧ StringText q s ∧
      ∀ r, chosenKey options (b ++ '"' :: (q ++ r)) = .ok (a, r) := by
  obtain ⟨b, hb, hcs⟩ := exists_blanks cs
  rw [chosenKey] at h
  split at h
  · simp at h
  · next r' heq =>
    obtain ⟨q, s, rfl, hq, hread⟩ := chosen_eq_ok h
    refine ⟨b, q, s, hb, heq ▸ hcs, hq, fun r => ?_⟩
    rw [chosenKey, skipBlanks_append_cons hb (by decide)]
    exact hread r
  · simp at h
  · simp at h

lemma reader_choice (depth : Nat) : Reader (choice options depth) where
  blanks cs := by simp only [choice, skipBlanks_skipBlanks]
  piece {cs r a} h := by
    obtain ⟨b, hb, hcs⟩ := exists_blanks cs
    rw [choice] at h
    split at h
    · simp at h
    · next r' heq =>
      obtain ⟨q, s, rfl, hq, hread⟩ := chosen_eq_ok h
      refine ⟨b ++ '"' :: q, by simpa [heq] using hcs, ?_, fun r _ => ?_⟩
      · have htext : ScalarText ('"' :: q) := fun r _ _ _ => hq.skips r
        exact (htext.blanks hb).valueText
      · rw [List.append_assoc, choice, List.cons_append, skipBlanks_append_cons hb (by decide)]
        exact hread r
    · next r' heq =>
      obtain ⟨d, rfl, h⟩ := nested_eq_ok.1 h
      obtain ⟨⟨a', r₁⟩, hkey, h⟩ := bind_eq_ok.1 h
      obtain ⟨r₂, hcolon, h⟩ := bind_eq_ok.1 h
      obtain ⟨⟨⟨⟩, r₃⟩, hunit, hend⟩ := bind_eq_ok.1 h
      obtain ⟨b₁, q, s, hb₁, rfl, hq, hread⟩ := chosenKey_eq_ok hkey
      obtain ⟨b₂, hb₂, rfl⟩ := colon_eq_ok (liftText_eq_ok.1 hcolon)
      obtain ⟨t, rfl, ht⟩ := (reader_unit d).piece hunit
      obtain ⟨b₃, hb₃, hr₃⟩ := exists_blanks r₃
      dsimp only at hend
      split at hend
      · next r₄ hclose =>
        obtain ⟨rfl, rfl⟩ : a' = a ∧ r₄ = r := by simpa using hend
        rw [hclose] at hr₃
        have hdone : EntriesText Named false (b₃ ++ ['}']) [] := .done hb₃
        have hentries := EntriesText.more .first hb₁ ⟨s, hq, rfl⟩ hb₂ ht.text hdone
        refine ⟨_, ?_, (hentries.valueText fun _ _ => Named.skipped).blanks hb, fun r _ => ?_⟩
        · simpa [heq, hr₃] using hcs
        · have hends : Ends (b₃ ++ '}' :: r) := by simpa using hdone.ends (r := r)
          simp only [List.append_assoc, List.cons_append, List.nil_append]
          rw [choice, skipBlanks_append_cons hb (by decide)]
          simp only [nested, hread, ok_bind, colon_append hb₂, liftText_ok, ht.reads _ hends,
            skipBlanks_append_cons hb₃ (show isBlank '}' = false by decide), pure_eq_ok]
      · simp at hend
      · simp at hend
    · simp at h

end Choice

section Nullable

variable {α : Type} {value : FromText α} {depth : Nat} {cs r : List Char}

lemma nullable_of_ne (h : Reader (value depth)) (hne : ∀ r, skipBlanks cs ≠ 'n' :: r) :
    nullable value depth cs = value depth cs >>= fun (a, r) => .ok (some a, r) := by
  rw [nullable]
  split
  · next heq => exact absurd heq (hne _)
  · rw [h.blanks]
    rfl

lemma reader_nullable (h : Reader (value depth)) : Reader (nullable value depth) where
  blanks cs := by simp only [nullable, skipBlanks_skipBlanks]
  piece {cs r o} hread := by
    by_cases hnull : ∃ r', skipBlanks cs = 'n' :: r'
    · obtain ⟨r', hr'⟩ := hnull
      obtain ⟨b, hb, hcs⟩ := exists_blanks cs
      simp only [nullable, hr'] at hread
      obtain ⟨r₁, hword, hend⟩ := bind_eq_ok.1 hread
      obtain ⟨rfl, rfl⟩ : none = o ∧ r₁ = r := by simpa using hend
      obtain rfl := word_eq_ok_iff.1 (liftText_eq_ok.1 hword)
      refine ⟨b ++ 'n' :: "ull".toList, by simpa [hr'] using hcs, ?_, fun r _ => ?_⟩
      · exact (ScalarText.blanks (scalarText_word fun _ _ _ => rfl) hb).valueText
      · rw [nullable, List.append_assoc, List.cons_append, skipBlanks_append_cons hb (by decide)]
        simp [word]
    · have hne : ∀ r, skipBlanks cs ≠ 'n' :: r := fun r hr => hnull ⟨r, hr⟩
      rw [nullable_of_ne h hne] at hread
      obtain ⟨⟨a, r'⟩, ha, hend⟩ := bind_eq_ok.1 hread
      obtain ⟨rfl, rfl⟩ : some a = o ∧ r' = r := by simpa using hend
      obtain ⟨t, rfl, ht⟩ := h.piece ha
      obtain ⟨c, u, _, hfront⟩ := ht.text.skipBlanks_append
      refine ⟨t, rfl, ht.text, fun r hr => ?_⟩
      rw [nullable_of_ne h, ht.reads r hr, ok_bind]
      intro r'' heq
      rw [hfront] at heq
      exact hne (u ++ r') (by rw [hfront, (List.cons.inj heq).1])

end Nullable

section List

variable {α : Type} {item : FromText α} {depth : Nat} {b cs s r : List Char}

lemma list_append (hb : Blanks b) :
    list item (depth + 1) (b ++ '[' :: s) = items (item depth) s true s := by
  rw [list, skipBlanks_append_cons hb (by decide)]
  rfl

lemma list_eq_ok {xs : List α} (h : list item depth cs = .ok (xs, r)) :
    ∃ d b s, depth = d + 1 ∧ Blanks b ∧ cs = b ++ '[' :: s ∧
      items (item d) s true s = .ok (xs, r) := by
  obtain ⟨b, hb, hcs⟩ := exists_blanks cs
  rw [list] at h
  split at h
  · next s heq =>
    obtain ⟨d, rfl, hitems⟩ := nested_eq_ok.1 h
    exact ⟨d, b, s, rfl, hb, heq ▸ hcs, hitems⟩
  · exact absurd h refuse_ne_ok

lemma reader_list (h : ∀ depth, Reader (item depth)) : Reader (list item depth) where
  blanks cs := by simp only [list, skipBlanks_skipBlanks]
  piece {cs r xs} hread := by
    obtain ⟨d, b, s, rfl, hb, rfl, hitems⟩ := list_eq_ok hread
    obtain ⟨s, ts, rfl, hs, hall⟩ := items_sound (fun _ _ _ => (h d).piece_skipBlanks) hitems
    refine ⟨b ++ '[' :: s, by simp, hs.valueText.blanks hb, fun r' _ => ?_⟩
    rw [List.append_assoc, List.cons_append, list_append hb]
    exact ((h d).items_iff hs (by simp)).2 ⟨rfl, hall⟩

end List

section Record

variable {ρ : Type} {title : String} {blank : ρ} {fields : List (Field FromText ρ)} {depth : Nat}
  {b cs s r : List Char}

lemma entryReader_record (h : ∀ f ∈ fields, Reader (f.put depth)) :
    EntryReader (entry fields depth) (RecordStep (At depth) fields) where
  sound {state state' k cs r} hread := by
    rw [entry] at hread
    rcases hfind : fields.find? (·.key = k) with _ | f
    · simp only [hfind] at hread
      obtain ⟨cs', hcolon, hread⟩ := bind_eq_ok.1 hread
      obtain ⟨r', hskip, hend⟩ := bind_eq_ok.1 hread
      obtain ⟨rfl, rfl⟩ : state = state' ∧ r' = r := by simpa using hend
      obtain ⟨b, hb, rfl⟩ := colon_eq_ok (liftText_eq_ok.1 hcolon)
      obtain ⟨t, rfl, ht⟩ := skip_sound (liftText_eq_ok.1 hskip)
      exact ⟨b, t, hb, rfl, ht, by simp only [RecordStep, hfind]⟩
    · simp only [hfind] at hread
      split at hread
      · simp at hread
      · next hseen =>
        obtain ⟨cs', hcolon, hread⟩ := bind_eq_ok.1 hread
        obtain ⟨⟨set, r'⟩, hset, hend⟩ := bind_eq_ok.1 hread
        obtain ⟨rfl, rfl⟩ : (set state.1, k :: state.2) = state' ∧ r' = r := by simpa using hend
        obtain ⟨b, hb, rfl⟩ := colon_eq_ok (liftText_eq_ok.1 hcolon)
        have hreader := h f (List.mem_of_find?_eq_some hfind)
        obtain ⟨t, rfl, ht⟩ := hreader.piece hset
        refine ⟨b, t, hb, rfl, ht.text, ?_⟩
        simp only [RecordStep, hfind]
        exact ⟨by simpa using hseen, set, hreader.reads_iff.2 ht, rfl⟩
  complete {state state' k b t r} hb ht hr hstep := by
    rw [entry]
    rcases hfind : fields.find? (·.key = k) with _ | f
    · simp only [RecordStep, hfind] at hstep
      obtain rfl := hstep
      have hskip : skip (t ++ r) (t ++ r) = .ok r := ht r hr _ (by simp)
      simp [hfind, colon_append hb, skipValue, hskip]
    · simp only [RecordStep, hfind] at hstep
      obtain ⟨hseen, set, hset, rfl⟩ := hstep
      have hpiece := (h f (List.mem_of_find?_eq_some hfind)).reads_iff.1 hset
      simp [hfind, hseen, colon_append hb, hpiece.reads r hr]

lemma endList_append (hb : Blanks b) : endList (b ++ ']' :: r) = .ok r := by
  simp only [endList, skipBlanks_append_cons hb (show isBlank ']' = false by decide)]

lemma endList_eq_ok (h : endList cs = .ok r) : ∃ b, Blanks b ∧ cs = b ++ ']' :: r := by
  obtain ⟨b, hb, hcs⟩ := exists_blanks cs
  refine ⟨b, hb, ?_⟩
  rw [endList] at h
  split at h
  · next r' heq =>
    obtain rfl : r' = r := by simpa using h
    rwa [← heq]
  · split at h <;> simp at h
  · simp at h
  · simp at h

lemma positional_sound {fields : List (Field FromText ρ)}
    (h : ∀ f ∈ fields, Reader (f.put depth)) {total index : Nat} {acc a : ρ}
    (hread : positional title total depth fields index acc cs = .ok (a, r)) :
    ∃ s ts, cs = s ++ r ∧ ItemsText (decide (index = 0)) s ts ∧
      Positional (At depth) fields acc ts a := by
  induction fields generalizing index acc cs with
  | nil =>
    rw [positional] at hread
    obtain ⟨r', hend, hread⟩ := bind_eq_ok.1 hread
    obtain ⟨rfl, rfl⟩ : acc = a ∧ r' = r := by simpa using hread
    obtain ⟨b, hb, rfl⟩ := endList_eq_ok (liftText_eq_ok.1 hend)
    exact ⟨b ++ [']'], [], by simp, .done hb, .done (by simp)⟩
  | cons f fs ih =>
    rw [positional] at hread
    obtain ⟨next, hnext, hread⟩ := bind_eq_ok.1 hread
    rw [liftText_eq_ok] at hnext
    rcases next with cs' | r'
    · obtain ⟨p, cs'', hp, rfl, rfl⟩ := nextItem_eq_more hnext
      obtain ⟨⟨set, r₁⟩, hset, hrest⟩ := bind_eq_ok.1 hread
      obtain ⟨t, rfl, ht, hpiece⟩ := (h f (by simp)).piece_skipBlanks hset
      obtain ⟨s, ts, rfl, hs, hfields⟩ := ih (fun g hg => h g (by simp [hg])) hrest
      have hread := (h f (by simp)).reads_iff.2 hpiece
      exact ⟨p ++ (t ++ s), t :: ts, by simp, .more hp ht hs, .more hread hfields⟩
    · obtain ⟨acc', hfinish, hend⟩ := bind_eq_ok.1 hread
      obtain ⟨rfl, rfl⟩ : acc' = a ∧ r' = r := by simpa using hend
      obtain ⟨rfl, hopt⟩ := finishShort_eq_ok.1 (liftFault_eq_ok.1 hfinish)
      obtain ⟨b, hb, rfl⟩ := nextItem_eq_done hnext
      exact ⟨b ++ [']'], [], by simp, .done hb, .done hopt⟩

lemma positional_complete {fields : List (Field FromText ρ)}
    (h : ∀ f ∈ fields, Reader (f.put depth)) {total index : Nat} {acc a : ρ}
    {ts : List (List Char)} (hs : ItemsText (decide (index = 0)) s ts)
    (hfields : Positional (At depth) fields acc ts a) :
    positional title total depth fields index acc (s ++ r) = .ok (a, r) := by
  induction hfields generalizing index s with
  | @done fs acc hopt =>
    cases hs with
    | done hb =>
      rw [List.append_assoc, List.singleton_append]
      rcases fs with _ | ⟨f, fs⟩
      · simp [positional, endList_append hb]
      · have hfinish : finishShort title total index (f :: fs) acc = .ok acc :=
          finishShort_eq_ok.2 ⟨rfl, hopt⟩
        rw [positional, nextItem_done hb, liftText_ok, ok_bind, hfinish]
        rfl
  | @more f fs acc a t ts set hset _ ih =>
    cases hs with
    | more hp ht hs =>
      have hreader := h f (by simp)
      rw [List.append_assoc, List.append_assoc, positional, nextItem_more hp ht, liftText_ok,
        ok_bind]
      simp only [hreader.blanks, (hreader.reads_iff.1 hset).reads _ hs.ends, ok_bind]
      exact ih (fun g hg => h g (by simp [hg])) (by simpa using hs)

lemma record_append_list (hb : Blanks b) :
    record title blank fields (depth + 1) (b ++ '[' :: s) =
      positional title fields.length depth fields 0 blank s := by
  rw [record, skipBlanks_append_cons hb (by decide)]
  rfl

lemma record_append_object (hb : Blanks b) :
    record title blank fields (depth + 1) (b ++ '{' :: s) =
      (foldEntries (entry fields depth) s true (blank, []) s >>= fun ((acc, seen), r) =>
        liftFault (finish fields seen acc) >>= fun acc => .ok (acc, r)) := by
  rw [record, skipBlanks_append_cons hb (by decide)]
  rfl

lemma record_eq_ok {a : ρ} (h : record title blank fields depth cs = .ok (a, r)) :
    ∃ d b s, depth = d + 1 ∧ Blanks b ∧
      (cs = b ++ '[' :: s ∧ positional title fields.length d fields 0 blank s = .ok (a, r) ∨
        ∃ seen, cs = b ++ '{' :: s ∧ firstMissing fields seen = none ∧
          foldEntries (entry fields d) s true (blank, []) s = .ok ((a, seen), r)) := by
  obtain ⟨b, hb, hcs⟩ := exists_blanks cs
  rw [record] at h
  split at h
  · next s heq =>
    obtain ⟨d, rfl, hfields⟩ := nested_eq_ok.1 h
    exact ⟨d, b, s, rfl, hb, .inl ⟨heq ▸ hcs, hfields⟩⟩
  · next s heq =>
    obtain ⟨d, rfl, hfields⟩ := nested_eq_ok.1 h
    obtain ⟨⟨⟨acc, seen⟩, r'⟩, hfold, hfields⟩ := bind_eq_ok.1 hfields
    obtain ⟨acc', hfinish, hend⟩ := bind_eq_ok.1 hfields
    obtain ⟨rfl, rfl⟩ : acc' = a ∧ r' = r := by simpa using hend
    obtain ⟨rfl, hmissing⟩ := finish_eq_ok.1 (liftFault_eq_ok.1 hfinish)
    exact ⟨d, b, s, rfl, hb, .inr ⟨seen, heq ▸ hcs, hmissing, hfold⟩⟩
  · exact absurd h refuse_ne_ok

lemma reader_record (h : ∀ f ∈ fields, ∀ depth, Reader (f.put depth)) :
    Reader (record title blank fields depth) where
  blanks cs := by simp only [record, skipBlanks_skipBlanks]
  piece {cs r a} hread := by
    obtain ⟨d, b, s, rfl, hb, ⟨rfl, hitems⟩ | ⟨seen, rfl, hmissing, hfold⟩⟩ := record_eq_ok hread
    · have hput : ∀ f ∈ fields, Reader (f.put d) := fun f hf => h f hf d
      obtain ⟨s, ts, rfl, hs, hfields⟩ := positional_sound hput hitems
      refine ⟨b ++ '[' :: s, by simp, hs.valueText.blanks hb, fun r' _ => ?_⟩
      rw [List.append_assoc, List.cons_append, record_append_list hb]
      exact positional_complete hput hs hfields
    · have hentry := entryReader_record fun f hf => h f hf d
      obtain ⟨s, es, rfl, hs, hsteps⟩ := foldEntries_sound hentry hfold
      refine ⟨b ++ '{' :: s, by simp, ?_, fun r' _ => ?_⟩
      · exact (hs.valueText fun _ _ => Named.skipped).blanks hb
      · rw [List.append_assoc, List.cons_append, record_append_object hb,
          foldEntries_complete hentry hs hsteps (by simp)]
        simp [finish, hmissing, liftFault, Except.mapError]

end Record

end FromText

end ZodGraph.Json
