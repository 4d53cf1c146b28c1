import ZodGraph.Json.FromValue
import ZodGraph.Proofs.Json.Reader

/-!
What reading from text and reading from a value have in common. A source has inputs; some inputs
are lists of inputs or objects of inputs, and what a reader gives for those follows from what its
parts give for the parts.
-/

namespace ZodGraph.Json

open Source

/-- A source whose readers are told by what they read from the parts of an input. -/
class LawfulSource (m : Type → Type) [Source m] where
  Raw : Type
  Reads {α : Type} : m α → Raw → α → Prop
  Items : Raw → List Raw → Prop
  Entries : Raw → List (String × Raw) → Prop
  /-- The reader reads one value. -/
  Proper {α : Type} : m α → Prop
  proper_text : Proper (text : m String)
  proper_flag : Proper (flag : m Bool)
  proper_any : Proper (any : m Json)
  proper_choice {α : Type} (options : List (String × α)) : Proper (choice options : m α)
  proper_list {α : Type} {p : m α} : Proper p → Proper (list p)
  proper_nullable {α : Type} {p : m α} : Proper p → Proper (nullable p)
  proper_refine {α β : Type} {p : m α} {f : α → Except Fault β} : Proper p → Proper (refine p f)
  proper_record {ρ : Type} {title : String} {blank : ρ} {fields : List (Field m ρ)} :
    (∀ f ∈ fields, Proper f.put) → Proper (record title blank fields)
  reads_refine {α β : Type} {p : m α} {f : α → Except Fault β} {x : Raw} {b : β} :
    Reads (refine p f) x b ↔ ∃ a, Reads p x a ∧ f a = .ok b
  reads_list {α : Type} {p : m α} {x : Raw} {xs : List Raw} {as : List α} :
    Proper p → Items x xs → (Reads (list p) x as ↔ List.Forall₂ (Reads p) xs as)
  reads_nullable {α : Type} {p : m α} {x : Raw} {o : Option α} :
    Proper p → ((∃ xs, Items x xs) ∨ ∃ es, Entries x es) →
      (Reads (nullable p) x o ↔ ∃ a, o = some a ∧ Reads p x a)
  reads_any_items {x : Raw} {xs : List Raw} {j : Json} :
    Items x xs → (Reads any x j ↔ ∃ js, j = arr js ∧ List.Forall₂ (Reads any) xs js)
  reads_any_entries {x : Raw} {es : List (String × Raw)} {j : Json} :
    Entries x es → (Reads any x j ↔
      ∃ vs, j = obj vs ∧ List.Forall₂ (fun e v => e.1 = v.1 ∧ Reads any e.2 v.2) es vs)
  reads_record_items {ρ : Type} {title : String} {blank a : ρ} {fields : List (Field m ρ)}
    {x : Raw} {xs : List Raw} : (∀ f ∈ fields, Proper f.put) → Items x xs →
      (Reads (record title blank fields) x a ↔ Positional Reads fields blank xs a)
  reads_record_entries {ρ : Type} {title : String} {blank a : ρ} {fields : List (Field m ρ)}
    {x : Raw} {es : List (String × Raw)} : (∀ f ∈ fields, Proper f.put) → Entries x es →
      (Reads (record title blank fields) x a ↔
        ∃ seen, Steps (RecordStep Reads fields) (blank, []) es (a, seen) ∧
          firstMissing fields seen = none)
  items_of_list {α : Type} {p : m α} {x : Raw} {as : List α} :
    Proper p → Reads (list p) x as → ∃ xs, Items x xs
  items_of_any {x : Raw} {js : List Json} : Reads any x (arr js) → ∃ xs, Items x xs
  entries_of_any {x : Raw} {vs : List (String × Json)} :
    Reads any x (obj vs) → ∃ es, Entries x es
  reads_of_nullable {α : Type} {p : m α} {x : Raw} {a : α} :
    Proper p → Reads (nullable p) x (some a) → Reads p x a
  brackets_of_record {ρ : Type} {title : String} {blank a : ρ} {fields : List (Field m ρ)}
    {x : Raw} : (∀ f ∈ fields, Proper f.put) → Reads (record title blank fields) x a →
      (∃ xs, Items x xs) ∨ ∃ es, Entries x es

attribute [simp] LawfulSource.proper_text LawfulSource.proper_flag LawfulSource.proper_any
  LawfulSource.proper_choice LawfulSource.proper_list LawfulSource.proper_nullable
  LawfulSource.proper_refine

section Fields

variable {m : Type → Type} [Source m] [LawfulSource m] {α ρ : Type} {p : m α} {key : String}
  {set : α → ρ → ρ}

-- simp looks for side conditions two deep, which a list of refined values would exceed
@[simp] lemma proper_refine_any {f : Json → Except Fault α} :
    LawfulSource.Proper (refine any f : m α) :=
  LawfulSource.proper_refine LawfulSource.proper_any

@[simp] lemma proper_required (h : LawfulSource.Proper p) :
    LawfulSource.Proper (required key p set).put := LawfulSource.proper_refine h

@[simp] lemma proper_defaulted (h : LawfulSource.Proper p) :
    LawfulSource.Proper (defaulted key p set).put := LawfulSource.proper_refine h

omit [LawfulSource m] in
@[simp] lemma key_required : (required key p set).key = key := rfl

omit [LawfulSource m] in
@[simp] lemma key_defaulted : (defaulted key p set).key = key := rfl

end Fields

/-! ### Values -/

namespace FromValue

lemma mapM_eq_ok {α β : Type} {f : α → Except Fault β} {xs : List α} {ys : List β} :
    xs.mapM f = .ok ys ↔ List.Forall₂ (fun x y => f x = .ok y) xs ys := by
  induction xs generalizing ys with
  | nil => simp [eq_comm]
  | cons x xs ih =>
    simp only [List.mapM_cons, bind_eq_ok, pure_eq_ok, Except.ok.injEq, ih,
      List.forall₂_cons_left_iff]
    constructor
    · rintro ⟨y, hy, ys, hys, rfl⟩
      exact ⟨y, ys, hy, hys, rfl⟩
    · rintro ⟨y, ys, hy, hys, rfl⟩
      exact ⟨y, hy, ys, hys, rfl⟩

lemma foldlM_eq_ok {σ α : Type} {f : σ → α → Except Fault σ} {s s' : σ} {xs : List α} :
    xs.foldlM f s = .ok s' ↔ Steps (fun s x s' => f s x = .ok s') s xs s' := by
  induction xs generalizing s with
  | nil => simp [steps_nil, eq_comm]
  | cons x xs ih => simp only [List.foldlM_cons, bind_eq_ok, steps_cons, ih]

lemma map_some_eq_ok {α : Type} {x : Except Fault α} {o : Option α} :
    x.map some = .ok o ↔ ∃ a, o = some a ∧ x = .ok a := by
  rcases x with e | a
  · simp [Except.map]
  · simp [Except.map, eq_comm]

lemma choice_obj_eq_ok {α : Type} {options : List (String × α)} {a : α}
    {es : List (String × Json)} (h : choice options (obj es) = .ok a) :
    ∃ k, es = [(k, null)] ∧ pick options k = .ok a := by
  rcases es with _ | ⟨⟨k, v⟩, _ | ⟨e, es⟩⟩
  · simp [choice] at h
  · obtain ⟨a', ha', hv⟩ := bind_eq_ok.1 h
    cases v with
    | null =>
      obtain rfl : a' = a := Except.ok.inj hv
      exact ⟨k, rfl, ha'⟩
    | _ => simp at hv
  · simp [choice] at h

section Record

variable {ρ : Type} {fields : List (Field FromValue ρ)}

lemma entry_eq_ok {state state' : ρ × List String} {e : String × Json} :
    entry fields state e = .ok state' ↔
      RecordStep (fun p j a => p j = .ok a) fields state e state' := by
  rw [entry, RecordStep]
  rcases hfind : fields.find? (·.key = e.1) with _ | f
  · simp only [hfind, Except.ok.injEq]
    exact eq_comm
  · simp only [hfind, List.contains_eq_mem, decide_eq_true_eq]
    split
    · next hseen => simp [hseen]
    · next hseen =>
      simp only [hseen, not_false_eq_true, true_and, bind_eq_ok, pure_eq_ok, Except.ok.injEq]
      exact exists_congr fun set => and_congr_right fun _ => eq_comm

lemma positional_eq_ok {title : String} {total index : Nat} {r a : ρ} {xs : List Json} :
    positional title total fields index r xs = .ok a ↔
      Positional (fun p j a => p j = .ok a) fields r xs a := by
  induction fields generalizing index r xs with
  | nil =>
    rcases xs with _ | ⟨x, xs⟩
    · simp only [positional, List.isEmpty_nil, if_true, Except.ok.injEq]
      constructor
      · rintro rfl
        exact .done (by simp)
      · rintro ⟨⟩
        rfl
    · simp only [positional, List.isEmpty_cons, Bool.false_eq_true, if_false, reduceCtorEq,
        false_iff]
      rintro ⟨⟩
  | cons f fs ih =>
    rcases xs with _ | ⟨x, xs⟩
    · simp only [positional, finishShort_eq_ok]
      constructor
      · rintro ⟨rfl, hopt⟩
        exact .done hopt
      · rintro ⟨⟩
        exact ⟨rfl, ‹_›⟩
    · simp only [positional, bind_eq_ok, ih]
      constructor
      · rintro ⟨set, hset, hrest⟩
        exact .more hset hrest
      · rintro ⟨⟩
        exact ⟨_, ‹_›, ‹_›⟩

end Record

instance : LawfulSource FromValue where
  Raw := Json
  Reads p j a := p j = .ok a
  Items j js := j = .arr js
  Entries j es := j = .obj es
  Proper _ := True
  proper_text := trivial
  proper_flag := trivial
  proper_any := trivial
  proper_choice _ := trivial
  proper_list _ := trivial
  proper_nullable _ := trivial
  proper_refine _ := trivial
  proper_record _ := trivial
  reads_refine := bind_eq_ok
  reads_list := by
    rintro _ p _ xs as _ rfl
    exact mapM_eq_ok
  reads_nullable := by
    rintro _ p x o _ (⟨xs, rfl⟩ | ⟨es, rfl⟩)
    · exact map_some_eq_ok
    · exact map_some_eq_ok
  reads_any_items := by
    rintro _ xs j rfl
    change Except.ok _ = Except.ok _ ↔ _
    simp [any, eq_comm]
  reads_any_entries := by
    rintro _ es j rfl
    change Except.ok _ = Except.ok _ ↔ _
    simp only [any, Except.ok.injEq, ← Prod.ext_iff, List.forall₂_eq_eq_eq]
    simp [eq_comm]
  reads_record_items := by
    rintro _ _ _ _ _ _ xs _ rfl
    exact positional_eq_ok
  reads_record_entries := by
    rintro _ _ blank a fields _ es _ rfl
    change (es.foldlM (entry fields) (blank, []) >>= fun (r, seen) => finish fields seen r) = _ ↔ _
    simp only [bind_eq_ok, foldlM_eq_ok, entry_eq_ok, Prod.exists, finish_eq_ok]
    constructor
    · rintro ⟨_, seen, hsteps, rfl, hmissing⟩
      exact ⟨seen, hsteps, hmissing⟩
    · rintro ⟨seen, hsteps, hmissing⟩
      exact ⟨a, seen, hsteps, rfl, hmissing⟩
  items_of_list := by
    intro _ p x as _ h
    cases x with
    | arr xs => exact ⟨xs, rfl⟩
    | _ => simp [Source.list, list] at h
  items_of_any h := ⟨_, Except.ok.inj h⟩
  entries_of_any h := ⟨_, Except.ok.inj h⟩
  reads_of_nullable := by
    intro _ p x a _ h
    cases x with
    | null => simp [Source.nullable, nullable] at h
    | _ =>
      obtain ⟨b, hb, hread⟩ := map_some_eq_ok.1 h
      rwa [Option.some.inj hb]
  brackets_of_record := by
    intro _ _ _ _ _ x _ h
    cases x with
    | arr xs => exact .inl ⟨xs, rfl⟩
    | obj es => exact .inr ⟨es, rfl⟩
    | _ => simp [Source.record, record] at h

end FromValue

/-! ### Text -/

namespace FromText

/-- A text of a list within a depth, and the texts of its items. -/
inductive ListText : Nat × List Char → List (Nat × List Char) → Prop
  | intro {d : Nat} {b s : List Char} {ts : List (List Char)} :
    Blanks b → ItemsText true s ts → ListText (d + 1, b ++ '[' :: s) (ts.map (d, ·))

/-- A text of an object within a depth, and the keys and texts of its entries. -/
inductive ObjectText : Nat × List Char → List (String × (Nat × List Char)) → Prop
  | intro {d : Nat} {b s : List Char} {es : List (String × List Char)} :
    Blanks b → EntriesText Named true s es →
      ObjectText (d + 1, b ++ '{' :: s) (es.map fun e => (e.1, (d, e.2)))

lemma steps_value {d : Nat} {acc acc' : List (String × Json)} {es : List (String × List Char)} :
    Steps (ValueStep d) acc es acc' ↔ ∃ vs, acc' = vs.reverse ++ acc ∧
      List.Forall₂ (fun e v => e.1 = v.1 ∧ value d e.2 = .ok (v.2, [])) es vs := by
  induction es generalizing acc with
  | nil => simp [steps_nil]
  | cons e es ih =>
    simp only [steps_cons, ih, List.forall₂_cons_left_iff]
    constructor
    · rintro ⟨_, ⟨v, hv, rfl⟩, vs, rfl, hvs⟩
      exact ⟨(e.1, v) :: vs, by simp, (e.1, v), vs, ⟨rfl, hv⟩, hvs, rfl⟩
    · rintro ⟨_, rfl, ⟨k, v⟩, vs, ⟨hk, hv⟩, hvs, rfl⟩
      exact ⟨_, ⟨v, hv, rfl⟩, vs, by simp [hk], hvs⟩

lemma nullable_eq_ok {α : Type} {p : FromText α} {depth : Nat} {cs : List Char} {o : Option α}
    (h : Reader (p depth)) (hne : ∀ r, skipBlanks cs ≠ 'n' :: r) :
    nullable p depth cs = .ok (o, []) ↔ ∃ a, o = some a ∧ p depth cs = .ok (a, []) := by
  rw [nullable_of_ne h hne]
  simp only [bind_eq_ok, Prod.exists, Except.ok.injEq, Prod.mk.injEq]
  constructor
  · rintro ⟨a, r, ha, rfl, rfl⟩
    exact ⟨a, rfl, ha⟩
  · rintro ⟨a, rfl, ha⟩
    exact ⟨a, [], ha, rfl, rfl⟩

lemma reads_of_nullable_some {α : Type} {p : FromText α} {depth : Nat} {cs : List Char} {a : α}
    (h : Reader (p depth)) (hread : nullable p depth cs = .ok (some a, [])) :
    p depth cs = .ok (a, []) := by
  by_cases hnull : ∃ r, skipBlanks cs = 'n' :: r
  · obtain ⟨r, hr⟩ := hnull
    simp only [nullable, hr] at hread
    obtain ⟨r', -, hend⟩ := bind_eq_ok.1 hread
    simp at hend
  · obtain ⟨b, hb, hp⟩ := (nullable_eq_ok h fun r hr => hnull ⟨r, hr⟩).1 hread
    rwa [Option.some.inj hb]

/-- A list or object kept as it stands is read from the text of one. -/
lemma listText_of_value {depth : Nat} {cs : List Char} {js : List Json}
    (h : value depth cs = .ok (arr js, [])) : ∃ xs, ListText (depth, cs) xs := by
  rcases depth with _ | d
  · obtain ⟨t, -, ht⟩ | ⟨b, s, -, ⟨-, hs⟩ | ⟨-, hs⟩⟩ := valueWith_cases h
    · exact ht.atomic.elim
    · simp at hs
    · simp at hs
  · rw [value_succ] at h
    obtain ⟨t, -, ht⟩ | ⟨b, s, hb, ⟨rfl, hs⟩ | ⟨-, hs⟩⟩ := valueWith_cases h
    · exact ht.atomic.elim
    · obtain ⟨⟨xs, r⟩, hxs, hend⟩ := bind_eq_ok.1 hs
      obtain ⟨-, rfl⟩ : xs = js ∧ r = [] := by simpa using hend
      obtain ⟨u, ts, rfl, hu, -⟩ := items_sound (fun _ _ _ => (reader_value d).piece_skipBlanks) hxs
      rw [List.append_nil]
      exact ⟨_, .intro hb hu⟩
    · obtain ⟨⟨es, r⟩, -, hend⟩ := bind_eq_ok.1 hs
      simp at hend

lemma objectText_of_value {depth : Nat} {cs : List Char} {vs : List (String × Json)}
    (h : value depth cs = .ok (obj vs, [])) : ∃ es, ObjectText (depth, cs) es := by
  rcases depth with _ | d
  · obtain ⟨t, -, ht⟩ | ⟨b, s, -, ⟨-, hs⟩ | ⟨-, hs⟩⟩ := valueWith_cases h
    · exact ht.atomic.elim
    · simp at hs
    · simp at hs
  · rw [value_succ] at h
    obtain ⟨t, -, ht⟩ | ⟨b, s, hb, ⟨-, hs⟩ | ⟨rfl, hs⟩⟩ := valueWith_cases h
    · exact ht.atomic.elim
    · obtain ⟨⟨xs, r⟩, -, hend⟩ := bind_eq_ok.1 hs
      simp at hend
    · obtain ⟨⟨es, r⟩, hes, hend⟩ := bind_eq_ok.1 hs
      obtain ⟨-, rfl⟩ : es.reverse = vs ∧ r = [] := by simpa using hend
      obtain ⟨u, ks, rfl, hu, -⟩ := foldEntries_sound (entryReader_value (reader_value d)) hes
      rw [List.append_nil]
      exact ⟨_, .intro hb hu⟩

section Whole

variable {d : Nat} {b s : List Char} {ts : List (List Char)} {es : List (String × List Char)}

lemma list_whole {α : Type} {p : FromText α} {as : List α} (h : Reader (p d)) (hb : Blanks b)
    (hs : ItemsText true s ts) :
    list p (d + 1) (b ++ '[' :: s) = .ok (as, []) ↔ List.Forall₂ (At d p) ts as := by
  rw [list_append hb]
  exact h.items_whole hs

lemma value_list_whole {j : Json} (hb : Blanks b) (hs : ItemsText true s ts) :
    value (d + 1) (b ++ '[' :: s) = .ok (j, []) ↔
      ∃ js, j = arr js ∧ List.Forall₂ (At d value) ts js := by
  rw [value_append_list hb]
  simp only [bind_eq_ok, Prod.exists, Except.ok.injEq, Prod.mk.injEq]
  constructor
  · rintro ⟨js, _, hjs, rfl, rfl⟩
    exact ⟨js, rfl, ((reader_value d).items_whole hs).1 hjs⟩
  · rintro ⟨js, rfl, hjs⟩
    exact ⟨js, [], ((reader_value d).items_whole hs).2 hjs, rfl, rfl⟩

lemma value_object_whole {j : Json} (hb : Blanks b) (hs : EntriesText Named true s es) :
    value (d + 1) (b ++ '{' :: s) = .ok (j, []) ↔
      ∃ vs, j = obj vs ∧ List.Forall₂ (fun e v => e.1 = v.1 ∧ At d value e.2 v.2) es vs := by
  have hentry := entryReader_value (reader_value d)
  rw [value_append_object hb]
  simp only [bind_eq_ok, Prod.exists, Except.ok.injEq, Prod.mk.injEq]
  constructor
  · rintro ⟨acc, _, hacc, rfl, rfl⟩
    obtain ⟨vs, rfl, hvs⟩ := steps_value.1 ((hentry.foldEntries_whole hs).1 hacc)
    exact ⟨vs, by simp, hvs⟩
  · rintro ⟨vs, rfl, hvs⟩
    have hsteps : Steps (ValueStep d) [] es vs.reverse := steps_value.2 ⟨vs, by simp, hvs⟩
    exact ⟨vs.reverse, [], (hentry.foldEntries_whole hs).2 hsteps, by simp, rfl⟩

variable {ρ : Type} {title : String} {blank a : ρ} {fields : List (Field FromText ρ)}

lemma record_list_whole (h : ∀ f ∈ fields, Reader (f.put d)) (hb : Blanks b)
    (hs : ItemsText true s ts) :
    record title blank fields (d + 1) (b ++ '[' :: s) = .ok (a, []) ↔
      Positional (At d) fields blank ts a := by
  rw [record_append_list hb]
  constructor
  · intro hread
    obtain ⟨s', ts', heq, hs', hfields⟩ := positional_sound h hread
    obtain ⟨rfl, -⟩ := hs.unique hs' ((List.append_nil s).trans heq)
    exact hfields
  · intro hfields
    have hread : positional title fields.length d fields 0 blank (s ++ []) = .ok (a, []) :=
      positional_complete h hs hfields
    simpa using hread

lemma record_object_whole (h : ∀ f ∈ fields, Reader (f.put d)) (hb : Blanks b)
    (hs : EntriesText Named true s es) :
    record title blank fields (d + 1) (b ++ '{' :: s) = .ok (a, []) ↔
      ∃ seen, Steps (RecordStep (At d) fields) (blank, []) es (a, seen) ∧
        firstMissing fields seen = none := by
  have hentry := entryReader_record h
  rw [record_append_object hb]
  simp only [bind_eq_ok, Prod.exists, Except.ok.injEq, Prod.mk.injEq, liftFault_eq_ok,
    finish_eq_ok]
  constructor
  · rintro ⟨acc, seen, _, hacc, _, ⟨rfl, hmissing⟩, rfl, rfl⟩
    exact ⟨seen, (hentry.foldEntries_whole hs).1 hacc, hmissing⟩
  · rintro ⟨seen, hsteps, hmissing⟩
    exact ⟨a, seen, [], (hentry.foldEntries_whole hs).2 hsteps, a, ⟨rfl, hmissing⟩, rfl, rfl⟩

end Whole

instance : LawfulSource FromText where
  Raw := Nat × List Char
  Reads p x a := At x.1 p x.2 a
  Items := ListText
  Entries := ObjectText
  Proper p := ∀ depth, Reader (p depth)
  proper_text := reader_string
  proper_flag := reader_flag
  proper_any := reader_value
  proper_choice _ := reader_choice
  proper_list h _ := reader_list h
  proper_nullable h depth := reader_nullable (h depth)
  proper_refine h depth := reader_refine _ (h depth)
  proper_record h _ := reader_record h
  reads_refine := refine_eq_ok
  reads_list := by
    rintro _ p _ _ as h ⟨hb, hs⟩
    simp only [List.forall₂_map_left_iff]
    exact list_whole (h _) hb hs
  reads_nullable := by
    rintro _ p _ o h (⟨_, ⟨hb, _⟩⟩ | ⟨_, ⟨hb, _⟩⟩)
    · refine nullable_eq_ok (h _) fun r => ?_
      simp [skipBlanks_append_cons hb (show isBlank '[' = false by decide)]
    · refine nullable_eq_ok (h _) fun r => ?_
      simp [skipBlanks_append_cons hb (show isBlank '{' = false by decide)]
  reads_any_items := by
    rintro _ _ j ⟨hb, hs⟩
    simp only [List.forall₂_map_left_iff]
    exact value_list_whole hb hs
  reads_any_entries := by
    rintro _ _ j ⟨hb, hs⟩
    simp only [List.forall₂_map_left_iff]
    exact value_object_whole hb hs
  reads_record_items := by
    rintro _ _ _ _ _ _ _ h ⟨hb, hs⟩
    simp only [positional_map]
    exact record_list_whole (fun f hf => h f hf _) hb hs
  reads_record_entries := by
    rintro _ _ _ _ _ _ _ h ⟨hb, hs⟩
    simp only [steps_map]
    exact record_object_whole (fun f hf => h f hf _) hb hs
  items_of_list := by
    rintro _ p ⟨depth, cs⟩ as h hread
    obtain ⟨d, b, s, rfl, hb, rfl, hitems⟩ := list_eq_ok hread
    obtain ⟨s, ts, rfl, hs, -⟩ := items_sound (fun _ _ _ => (h d).piece_skipBlanks) hitems
    rw [List.append_nil]
    exact ⟨_, .intro hb hs⟩
  items_of_any h := listText_of_value h
  entries_of_any h := objectText_of_value h
  reads_of_nullable h hread := reads_of_nullable_some (h _) hread
  brackets_of_record := by
    rintro _ _ _ _ _ ⟨depth, cs⟩ h hread
    obtain ⟨d, b, s, rfl, hb, ⟨rfl, hfields⟩ | ⟨seen, rfl, -, hfold⟩⟩ := record_eq_ok hread
    · obtain ⟨s, ts, rfl, hs, -⟩ := positional_sound (fun f hf => h f hf d) hfields
      rw [List.append_nil]
      exact .inl ⟨_, .intro hb hs⟩
    · obtain ⟨s, es, rfl, hs, -⟩ :=
        foldEntries_sound (entryReader_record fun f hf => h f hf d) hfold
      rw [List.append_nil]
      exact .inr ⟨_, .intro hb hs⟩

end FromText

end ZodGraph.Json
