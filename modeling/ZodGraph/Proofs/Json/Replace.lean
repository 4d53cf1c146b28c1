import ZodGraph.Proofs.Json.Edit

/-!
Replacing a part of a text. The part is found by passing over what stands in front of it, and
the new text takes its place between what comes before and after.
-/

namespace ZodGraph.Json

open Source LawfulSource

/-- The value in front is passed over; the text from it on is kept. -/
def fromHere : Scan (List Char) := fun cs => do
  let r ← skipValue cs
  return (cs, r)

/-- An entry is passed over; its key and the text from its value on are kept. -/
def fromEntry (acc : List (String × List Char)) (k : String) :
    Scan (List (String × List Char)) := fun cs => do
  let cs ← liftText (colon cs)
  let r ← skipValue cs
  return ((k, cs) :: acc, r)

def itemAt (s : List Char) (i : Nat) : Option (List Char) :=
  (items fromHere s true s).toOption.bind fun x => x.1[i]?

def entryAt (s : List Char) (key : String) : Option (List Char) :=
  (foldEntries fromEntry s true [] s).toOption.bind fun x => x.1.lookup key

/-- The text from a part of the value in front on. -/
def partAt (cs : List Char) (part : Part) : Option (List Char) :=
  match skipBlanks cs, part with
  | '[' :: s, part => itemAt s part.index
  | '{' :: s, .field key _ => entryAt s key
  | _, _ => none

/-- The text with the part at a path replaced by another text. -/
def replaceAt (path : List Part) (new cs : List Char) : Option (List Char) := do
  let part ← path.foldlM partAt cs
  let rest ← (skipValue part).toOption
  return cs.take (cs.length - part.length) ++ (new ++ rest)

section Holes

variable {cs r part fuel : List Char} {first : Bool}

lemma fromHere_eq_ok {x : List Char} : fromHere cs = .ok (x, r) ↔ x = cs ∧ skip cs cs = .ok r := by
  simp only [fromHere, bind_eq_ok, pure_eq_ok, Except.ok.injEq, Prod.mk.injEq, skipValue,
    liftText_eq_ok]
  constructor
  · rintro ⟨_, hskip, rfl, rfl⟩
    exact ⟨rfl, hskip⟩
  · rintro ⟨rfl, hskip⟩
    exact ⟨r, hskip, rfl, rfl⟩

lemma fromHere_local {x : List Char} (h : fromHere (skipBlanks cs) = .ok (x, r)) :
    ∃ t, cs = t ++ r ∧ ValueText t ∧ True := by
  obtain ⟨b, hb, hcs⟩ := exists_blanks cs
  obtain ⟨t, ht, htext⟩ := skip_sound (fromHere_eq_ok.1 h).2
  rw [ht, ← List.append_assoc] at hcs
  exact ⟨b ++ t, hcs, htext.blanks hb, trivial⟩

/-- An item found in a list leaves a hole that any other value fits. -/
lemma items_hole {ts : List (List Char)} {i : Nat}
    (h : items fromHere fuel first cs = .ok (ts, r)) (hi : ts[i]? = some part) :
    ∃ u t s b pre post, cs = u ++ part ∧ part = t ++ (s ++ r) ∧ ValueText t ∧ Ends (s ++ r) ∧
      Blanks b ∧ pre.length = i ∧
      ∀ w, ValueText w → ItemsText first (u ++ (w ++ s)) (pre ++ (b ++ w) :: post) := by
  induction fuel generalizing first cs ts i with
  | nil => simp [items] at h
  | cons _ fuel ih =>
    rw [items] at h
    obtain ⟨next, hnext, hloop⟩ := bind_eq_ok.1 h
    rw [liftText_eq_ok] at hnext
    rcases next with cs' | r'
    · obtain ⟨p, cs'', hp, rfl, rfl⟩ := nextItem_eq_more hnext
      obtain ⟨⟨x, r₁⟩, hx, hitems⟩ := bind_eq_ok.1 hloop
      obtain ⟨⟨xs, r₂⟩, hxs, hend⟩ := bind_eq_ok.1 hitems
      obtain ⟨rfl, rfl⟩ : x :: xs = ts ∧ r₂ = r := by simpa using hend
      obtain ⟨rfl, hskip⟩ := fromHere_eq_ok.1 hx
      obtain ⟨b, hb, hcs⟩ := exists_blanks cs''
      obtain ⟨t, ht, htext⟩ := skip_sound hskip
      rcases i with _ | i
      · obtain rfl : skipBlanks cs'' = part := by simpa using hi
        obtain ⟨s, rest, rfl, hs, -⟩ := items_sound (fun _ _ _ => fromHere_local) hxs
        refine ⟨p ++ b, t, s, b, [], rest, ?_, ht, htext, hs.ends, hb, rfl, fun w hw => ?_⟩
        · rw [List.append_assoc, ← hcs]
        · simpa using ItemsText.more hp (hw.blanks hb) hs
      · obtain ⟨u, t', s, b', pre, post, rfl, rfl, ht', hends, hb', hpre, hfill⟩ :=
          ih hxs (by simpa using hi)
        refine ⟨p ++ (b ++ t) ++ u, t', s, b', (b ++ t) :: pre, post, ?_, rfl, ht', hends, hb',
          by simp [hpre], fun w hw => ?_⟩
        · rw [ht] at hcs
          simp [hcs]
        · simpa using ItemsText.more hp (htext.blanks hb) (hfill w hw)
    · obtain ⟨rfl, rfl⟩ : [] = ts ∧ r' = r := by simpa using hloop
      simp at hi

lemma fromEntry_eq_ok {acc acc' : List (String × List Char)} {k : String}
    (h : fromEntry acc k cs = .ok (acc', r)) :
    ∃ b t, Blanks b ∧ cs = b ++ ':' :: (t ++ r) ∧ ValueText t ∧ acc' = (k, t ++ r) :: acc := by
  obtain ⟨cs', hcolon, h⟩ := bind_eq_ok.1 h
  obtain ⟨r', hskip, hend⟩ := bind_eq_ok.1 h
  obtain ⟨rfl, rfl⟩ : (k, cs') :: acc = acc' ∧ r' = r := by simpa using hend
  obtain ⟨b, hb, rfl⟩ := colon_eq_ok (liftText_eq_ok.1 hcolon)
  obtain ⟨t, rfl, ht⟩ := skip_sound (liftText_eq_ok.1 hskip)
  exact ⟨b, t, hb, rfl, ht, rfl⟩

/-- The last entry of a key found in an object leaves a hole that any other value fits. It stood
in the entries seen before, or it is one of those passed over now. -/
lemma entries_hole {acc acc' : List (String × List Char)} {key : String}
    (h : foldEntries fromEntry fuel first acc cs = .ok (acc', r))
    (hkey : acc'.lookup key = some part) :
    (acc.lookup key = some part ∧
      ∃ s es, cs = s ++ r ∧ EntriesText Named first s es ∧ key ∉ es.map Prod.fst) ∨
    ∃ u t s pre post, cs = u ++ part ∧ part = t ++ (s ++ r) ∧ ValueText t ∧ Ends (s ++ r) ∧
      key ∉ post.map Prod.fst ∧
      ∀ w, ValueText w → EntriesText Named first (u ++ (w ++ s)) (pre ++ (key, w) :: post) := by
  induction fuel generalizing first cs acc with
  | nil => simp [foldEntries] at h
  | cons _ fuel ih =>
    rw [foldEntries] at h
    obtain ⟨next, hnext, hloop⟩ := bind_eq_ok.1 h
    rw [liftText_eq_ok] at hnext
    rcases next with cs' | r'
    · obtain ⟨p, b, hp, hb, rfl⟩ := nextKey_eq_more hnext
      obtain ⟨⟨name, r₁⟩, hname, hentries⟩ := bind_eq_ok.1 hloop
      obtain ⟨⟨acc₁, r₂⟩, hacc, hrest⟩ := bind_eq_ok.1 hentries
      obtain ⟨q, rfl, hq⟩ := string_local (liftText_eq_ok.1 hname)
      obtain ⟨b', t, hb', rfl, ht, rfl⟩ := fromEntry_eq_ok hacc
      have hk : Named q (String.ofList name) := ⟨name, hq, rfl⟩
      obtain ⟨hseen, s, es, rfl, hs, hnone⟩ |
        ⟨u, t', s, pre, post, rfl, rfl, ht', hends, hlast, hfill⟩ := ih hrest
      · by_cases hsame : key = String.ofList name
        · obtain rfl : t ++ (s ++ r) = part := by simpa [hsame] using hseen
          refine .inr ⟨p ++ (b ++ '"' :: (q ++ (b' ++ [':']))), t, s, [], es, by simp, rfl, ht,
            hs.ends, hnone, fun w hw => ?_⟩
          simpa using EntriesText.more hp hb (hsame ▸ hk) hb' hw hs
        · have hbefore : acc.lookup key = some part := by
            simpa [List.lookup_cons, beq_eq_false_iff_ne.2 hsame] using hseen
          refine .inl ⟨hbefore, _, (String.ofList name, t) :: es, ?_, .more hp hb hk hb' ht hs, ?_⟩
          · simp
          · simpa [hsame] using hnone
      · refine .inr ⟨p ++ (b ++ '"' :: (q ++ (b' ++ ':' :: (t ++ u)))), t', s,
          (String.ofList name, t) :: pre, post, by simp, rfl, ht', hends, hlast, fun w hw => ?_⟩
        simpa using EntriesText.more hp hb hk hb' ht (hfill w hw)
    · obtain ⟨rfl, rfl⟩ : acc = acc' ∧ r' = r := by simpa using hloop
      obtain ⟨b, hb, rfl⟩ := nextKey_eq_done hnext
      exact .inl ⟨hkey, b ++ ['}'], [], by simp, .done hb, by simp⟩

end Holes

/-! ### Edits of text -/

section Text

variable {d d' : Nat} {b t t' : List Char} {v : Json} {path : List Part}

lemma FromText.ListText.blanks {xs : List (Nat × List Char)} (h : FromText.ListText (d, t) xs)
    (hb : Blanks b) : FromText.ListText (d, b ++ t) xs := by
  generalize hx : (d, t) = x at h
  cases h with
  | intro hb' hs =>
    obtain ⟨rfl, rfl⟩ := Prod.mk.inj hx
    rw [← List.append_assoc]
    exact .intro (hb.append hb') hs

lemma FromText.ObjectText.blanks {es : List (String × (Nat × List Char))}
    (h : FromText.ObjectText (d, t) es) (hb : Blanks b) : FromText.ObjectText (d, b ++ t) es := by
  generalize hx : (d, t) = x at h
  cases h with
  | intro hb' hs =>
    obtain ⟨rfl, rfl⟩ := Prod.mk.inj hx
    rw [← List.append_assoc]
    exact .intro (hb.append hb') hs

lemma Edit.blanks {x x' : Raw FromText} (h : Edit v path x x') (hb : Blanks b) :
    Edit (m := FromText) v path (x.1, b ++ x.2) (x'.1, b ++ x'.2) := by
  cases h with
  | here hv =>
    refine .here ?_
    have hblanks := (reader_value x'.1).blanks
    change value x'.1 (b ++ x'.2) = .ok (v, [])
    rw [← hblanks, skipBlanks_append hb, hblanks]
    exact hv
  | item hx hx' hi hedit =>
    exact .item (FromText.ListText.blanks hx hb) (FromText.ListText.blanks hx' hb) hi hedit
  | entry hx hx' hlast hedit =>
    exact .entry (FromText.ObjectText.blanks hx hb) (FromText.ObjectText.blanks hx' hb) hlast hedit

lemma toOption_bind_eq_some {ε α β : Type} {x : Except ε α} {f : α → Option β} {c : β} :
    x.toOption.bind f = some c ↔ ∃ a, x = .ok a ∧ f a = some c := by
  rcases x with e | a <;> simp [Except.toOption]

/-- A text of a value, cut around the part at a path: whatever stands in the part's place, the
text is a value again, and it is the old one with that part changed. -/
structure Cut (path : List Part) (t before after : List Char) : Prop where
  edit {new : List Char} {v : Json} {room : Nat} : value room new = .ok (v, []) →
    ValueText (before ++ (new ++ after)) ∧
      Edit (m := FromText) v path (path.length + room, t)
        (path.length + room, before ++ (new ++ after))

lemma cut_nil : Cut [] t [] [] where
  edit {new v room} h := by
    obtain ⟨u, hu, hpiece⟩ := (reader_value room).piece h
    obtain rfl : new = u := by simpa using hu
    simp only [List.length_nil, Nat.zero_add, List.nil_append, List.append_nil]
    exact ⟨hpiece.text, .here h⟩

lemma Cut.item {part : Part} {u s b₁ before after : List Char} {pre post : List (List Char)}
    (hb : Blanks b) (hb₁ : Blanks b₁) (ht : ValueText t) (hpre : pre.length = part.index)
    (hfill : ∀ w, ValueText w → ItemsText true (u ++ (w ++ s)) (pre ++ (b₁ ++ w) :: post))
    (h : Cut path t before after) :
    Cut (part :: path) (b ++ '[' :: (u ++ (t ++ s))) (b ++ '[' :: (u ++ before)) (after ++ s) where
  edit {new v room} hv := by
    obtain ⟨htext, hedit⟩ := h.edit hv
    have hold := FromText.ListText.intro (d := path.length + room) hb (hfill _ ht)
    have hnew := FromText.ListText.intro (d := path.length + room) hb (hfill _ htext)
    have hshape : b ++ '[' :: (u ++ before) ++ (new ++ (after ++ s)) =
        b ++ '[' :: (u ++ ((before ++ (new ++ after)) ++ s)) := by simp
    have hdepth : (part :: path).length + room = path.length + room + 1 := by
      simp only [List.length_cons]
      omega
    rw [List.map_append, List.map_cons] at hold hnew
    rw [hshape, hdepth]
    refine ⟨(hfill _ htext).valueText.blanks hb, .item hold hnew ?_ (hedit.blanks hb₁)⟩
    rw [List.length_map, hpre]

lemma Cut.entry {u s before after : List Char} {pre post : List (String × List Char)}
    {key : String} {i : Nat} (hb : Blanks b) (ht : ValueText t) (hlast : key ∉ post.map Prod.fst)
    (hfill : ∀ w, ValueText w → EntriesText Named true (u ++ (w ++ s)) (pre ++ (key, w) :: post))
    (h : Cut path t before after) :
    Cut (.field key i :: path) (b ++ '{' :: (u ++ (t ++ s))) (b ++ '{' :: (u ++ before))
      (after ++ s) where
  edit {new v room} hv := by
    obtain ⟨htext, hedit⟩ := h.edit hv
    have hold := FromText.ObjectText.intro (d := path.length + room) hb (hfill _ ht)
    have hnew := FromText.ObjectText.intro (d := path.length + room) hb (hfill _ htext)
    have hshape : b ++ '{' :: (u ++ before) ++ (new ++ (after ++ s)) =
        b ++ '{' :: (u ++ ((before ++ (new ++ after)) ++ s)) := by simp
    have hdepth : (Part.field key i :: path).length + room = path.length + room + 1 := by
      simp only [List.length_cons]
      omega
    rw [List.map_append, List.map_cons] at hold hnew
    rw [hshape, hdepth]
    refine ⟨((hfill _ htext).valueText fun _ _ => Named.skipped).blanks hb,
      .entry hold hnew ?_ hedit⟩
    rw [List.map_map]
    exact hlast

/-- A text starts with one value in at most one way, also where nothing need end it. -/
lemma ValueText.unique_of_skip {x r r' : List Char} (ht : ValueText t) (hr : Ends r)
    (hskip : skip (t ++ x) (x ++ r') = .ok r') (heq : t ++ r = x ++ r') : t = x ∧ r = r' := by
  rw [← heq, ht r hr _ (by simp)] at hskip
  obtain rfl : r = r' := by simpa using hskip
  exact ⟨List.append_cancel_right heq, rfl⟩

theorem foldlM_partAt {part rest r : List Char} (ht : ValueText t) (hr : Ends r)
    (hpart : path.foldlM partAt (t ++ r) = some part) (hrest : skipValue part = .ok rest) :
    ∃ before after, t ++ r = before ++ part ∧ rest = after ++ r ∧ Cut path t before after := by
  induction path generalizing t r with
  | nil =>
    obtain rfl : t ++ r = part := by simpa using hpart
    rw [skipValue, liftText_eq_ok, ht r hr _ (by simp)] at hrest
    obtain rfl : r = rest := by simpa using hrest
    exact ⟨[], [], by simp, by simp, cut_nil⟩
  | cons p path ih =>
    rw [List.foldlM_cons] at hpart
    obtain ⟨cs, hcs, hpart⟩ := Option.bind_eq_some_iff.1 hpart
    obtain ⟨b, hb, hblanks⟩ := exists_blanks (t ++ r)
    unfold partAt at hcs
    split at hcs
    · next s₀ heq =>
      obtain ⟨⟨ts, r'⟩, hitems, hget⟩ := toOption_bind_eq_some.1 hcs
      obtain ⟨u, t₁, s, b₁, pre, post, rfl, rfl, ht₁, hends, hb₁, hpre, hfill⟩ :=
        items_hole hitems hget
      rw [heq] at hblanks
      have hlist : t ++ r = (b ++ '[' :: (u ++ (t₁ ++ s))) ++ r' := by simpa using hblanks
      have hskip (bound : List Char) (hlen : (u ++ (t₁ ++ s)).length < bound.length) :
          skip bound ((b ++ '[' :: (u ++ (t₁ ++ s))) ++ r') = .ok r' := by
        rw [List.append_assoc, skip_blanks hb]
        exact (hfill t₁ ht₁).skip hlen
      obtain ⟨rfl, rfl⟩ := ht.unique_of_skip hr (hskip _ (by simp; omega)) hlist
      obtain ⟨before, after, hbefore, rfl, hcut⟩ := ih ht₁ hends hpart
      refine ⟨b ++ '[' :: (u ++ before), after ++ s, ?_, by simp, hcut.item hb hb₁ ht₁ hpre hfill⟩
      simp [hbefore]
    · next s₀ key i heq =>
      obtain ⟨⟨es, r'⟩, hentries, hget⟩ := toOption_bind_eq_some.1 hcs
      obtain ⟨u, t₁, s, pre, post, rfl, rfl, ht₁, hends, hlast, hfill⟩ :=
        (entries_hole hentries hget).resolve_left fun hno => by simp at hno
      rw [heq] at hblanks
      have hobject : t ++ r = (b ++ '{' :: (u ++ (t₁ ++ s))) ++ r' := by simpa using hblanks
      have hskip (bound : List Char) (hlen : (u ++ (t₁ ++ s)).length < bound.length) :
          skip bound ((b ++ '{' :: (u ++ (t₁ ++ s))) ++ r') = .ok r' := by
        rw [List.append_assoc, skip_blanks hb]
        exact (hfill t₁ ht₁).skip (fun _ _ => Named.skipped) hlen
      obtain ⟨rfl, rfl⟩ := ht.unique_of_skip hr (hskip _ (by simp; omega)) hobject
      obtain ⟨before, after, hbefore, rfl, hcut⟩ := ih ht₁ hends hpart
      refine ⟨b ++ '{' :: (u ++ before), after ++ s, ?_, by simp, hcut.entry hb ht₁ hlast hfill⟩
      simp [hbefore]
    · simp at hcs

/-- Replacing a part of a text is an edit of the value in front. -/
theorem replaceAt_edit {new cs r : List Char} {room : Nat} (ht : ValueText t) (hr : Ends r)
    (hcs : replaceAt path new (t ++ r) = some cs) (hnew : value room new = .ok (v, [])) :
    ∃ t', cs = t' ++ r ∧ ValueText t' ∧
      Edit (m := FromText) v path (path.length + room, t) (path.length + room, t') := by
  obtain ⟨part, hpart, hcs⟩ := Option.bind_eq_some_iff.1 hcs
  obtain ⟨rest, hrest, hcs⟩ := toOption_bind_eq_some.1 hcs
  obtain rfl := Option.some.inj hcs
  obtain ⟨before, after, hbefore, rfl, hcut⟩ := foldlM_partAt ht hr hpart hrest
  refine ⟨before ++ (new ++ after), ?_, hcut.edit hnew⟩
  rw [hbefore]
  simp

/-- The last entry of a key counts, and blanks around it stay. -/
example : replaceAt [.field "a" 0, .item 1] ['5'] "[0, 1] ".toList = none ∧
    replaceAt [.field "a" 0, .item 1] ['5'] "\x7b\"a\": 0, \"a\": [1, [2] ]\x7d".toList =
      some "\x7b\"a\": 0, \"a\": [1, 5 ]\x7d".toList := by
  cbv

end Text

/-! ### Parts that are found -/

section Found

variable {s t r cs fuel : List Char} {first : Bool}

lemma ValueText.skipBlanks (h : ValueText t) : ValueText (skipBlanks t) := by
  have hskip := h [] ends_nil t le_rfl
  rw [List.append_nil, ← skip_skipBlanks] at hskip
  obtain ⟨u, hu, htext⟩ := skip_sound hskip
  rwa [hu, List.append_nil]

/-- A value is passed over whatever blanks stand in front of it. -/
lemma ValueText.skipValue (h : ValueText t) (hr : Ends r)
    (hcs : Json.skipBlanks cs = Json.skipBlanks (t ++ r)) : skipValue cs = .ok r := by
  obtain ⟨c, u, -, hfront⟩ := h.skipBlanks_append
  have htext : ValueText (c :: u) := by
    have hblanks := h.skipBlanks
    rwa [← List.append_nil t, hfront, List.append_nil] at hblanks
  obtain ⟨b, -, hb⟩ := exists_blanks cs
  have hlen : (c :: u).length ≤ cs.length := by
    rw [hb, hcs, hfront]
    simp
    omega
  rw [Json.skipValue, liftText_eq_ok, ← skip_skipBlanks, hcs, hfront]
  exact htext r hr cs hlen

/-- Every item of a list is found. -/
lemma items_found {ts : List (List Char)} (h : ItemsText first s ts)
    (hfuel : s.length ≤ fuel.length) :
    ∃ us, items fromHere fuel first (s ++ r) = .ok (us, r) ∧
      List.Forall₂ (fun t u => ValueText t ∧ ∃ r', Ends r' ∧ u = skipBlanks (t ++ r')) ts us := by
  induction h generalizing fuel with
  | done hb =>
    rcases fuel with _ | ⟨_, fuel⟩
    · simp at hfuel
    · refine ⟨[], ?_, .nil⟩
      rw [items, List.append_assoc, List.singleton_append, nextItem_done hb]
      rfl
  | @more first p t s ts hp ht hs ih =>
    have hpos := ht.length_pos
    simp only [List.length_append] at hfuel
    rcases fuel with _ | ⟨_, fuel⟩
    · simp only [List.length_nil] at hfuel
      omega
    · obtain ⟨us, hus, hall⟩ := @ih fuel (by simp at hfuel; omega)
      have hhere : fromHere (skipBlanks (t ++ (s ++ r))) =
          .ok (skipBlanks (t ++ (s ++ r)), s ++ r) := by
        simp only [fromHere, ht.skipValue hs.ends skipBlanks_skipBlanks, ok_bind, pure_eq_ok]
      refine ⟨_ :: us, ?_, .cons ⟨ht, s ++ r, hs.ends, rfl⟩ hall⟩
      rw [items, List.append_assoc, List.append_assoc, nextItem_more hp ht, liftText_ok, ok_bind]
      simp only [hhere, ok_bind, hus, pure_eq_ok]

/-- Every entry of an object is found; those seen first stand last. -/
lemma entries_found {es : List (String × List Char)} (h : EntriesText Named first s es)
    (acc : List (String × List Char)) (hfuel : s.length ≤ fuel.length) :
    ∃ us, foldEntries fromEntry fuel first acc (s ++ r) = .ok (us.reverse ++ acc, r) ∧
      List.Forall₂ (fun e u => e.1 = u.1 ∧ ValueText e.2 ∧ ∃ r', Ends r' ∧ u.2 = e.2 ++ r')
        es us := by
  induction h generalizing fuel acc with
  | done hb =>
    rcases fuel with _ | ⟨_, fuel⟩
    · simp at hfuel
    · refine ⟨[], ?_, .nil⟩
      rw [foldEntries, List.append_assoc, List.singleton_append, nextKey_done hb]
      rfl
  | @more first p b q c t s k es hp hb hq hc ht hs ih =>
    simp only [List.length_append, List.length_cons] at hfuel
    obtain ⟨w, hw, rfl⟩ := hq
    rcases fuel with _ | ⟨_, fuel⟩
    · simp only [List.length_nil] at hfuel
      omega
    · obtain ⟨us, hus, hall⟩ :=
        @ih fuel ((String.ofList w, t ++ (s ++ r)) :: acc) (by simp at hfuel; omega)
      refine ⟨(String.ofList w, t ++ (s ++ r)) :: us, ?_,
        .cons ⟨rfl, ht, s ++ r, hs.ends, rfl⟩ hall⟩
      simp only [List.append_assoc, List.cons_append]
      rw [foldEntries, nextKey_more hp hb, liftText_ok, ok_bind]
      simp only [hw.reads, liftText_ok, ok_bind, fromEntry, colon_append hc,
        ht.skipValue hs.ends rfl, pure_eq_ok, hus, List.reverse_cons, List.append_assoc,
        List.singleton_append]

lemma lookup_append_cons {key : String} {us vs : List (String × List Char)} {u : List Char}
    (h : key ∉ us.map Prod.fst) : (us ++ (key, u) :: vs).lookup key = some u := by
  have hnone : us.lookup key = none := List.lookup_eq_none_iff.2 fun e he => by
    have hne : key ≠ e.1 := fun heq => h (heq ▸ List.mem_map_of_mem he)
    simpa using hne
  rw [List.lookup_append, hnone, Option.none_or, List.lookup_cons_self]

lemma partAt_list {part : Part} (h : skipBlanks cs = '[' :: s) :
    partAt cs part = itemAt s part.index := by
  unfold partAt
  simp only [h]

lemma partAt_object {key : String} {i : Nat} (h : skipBlanks cs = '{' :: s) :
    partAt cs (.field key i) = entryAt s key := by
  unfold partAt
  simp only [h]

/-- A part that a text has is found. -/
theorem Has.exists_part {path : List Part} {x : Raw FromText} (h : Has path x)
    (ht : ValueText x.2) (hr : Ends r) (hcs : skipBlanks cs = skipBlanks (x.2 ++ r)) :
    ∃ part rest, path.foldlM partAt cs = some part ∧ skipValue part = .ok rest := by
  induction h generalizing r cs with
  | here => exact ⟨cs, r, rfl, ht.skipValue hr hcs⟩
  | @item part path x y xs ys hx hi _ ih =>
    generalize hzs : xs ++ y :: ys = zs at hx
    obtain @⟨d, b, s, ts, hb, hs⟩ := hx
    obtain ⟨ts₁, ts', rfl, rfl, hts'⟩ := List.map_eq_append_iff.1 hzs.symm
    obtain ⟨w, ts₂, rfl, rfl, -⟩ := List.map_eq_cons_iff.1 hts'
    obtain ⟨us, hus, hall⟩ := @items_found s r (s ++ r) true _ hs (by simp)
    obtain ⟨us₁, u, us₂, rfl, hus₁, ⟨hw, r', hr', rfl⟩, -⟩ := forall₂_middle.1 hall
    obtain ⟨part', rest, hpart, hrest⟩ := ih hw hr' skipBlanks_skipBlanks
    refine ⟨part', rest, ?_, hrest⟩
    have hlen : us₁.length = part.index := by
      rw [← hus₁.length_eq, ← hi, List.length_map]
    rw [List.append_assoc, List.cons_append, skipBlanks_append_cons hb (by decide)] at hcs
    rw [List.foldlM_cons, partAt_list hcs]
    simp only [itemAt, hus, Except.toOption, Option.bind_some, ← hlen]
    simpa using hpart
  | @entry path x y es es' k i hx hlast _ ih =>
    generalize hzs : es ++ (k, y) :: es' = zs at hx
    obtain @⟨d, b, s, ks, hb, hs⟩ := hx
    obtain ⟨ks₁, ks', rfl, rfl, hks'⟩ := List.map_eq_append_iff.1 hzs.symm
    obtain ⟨⟨k', w⟩, ks₂, rfl, hky, rfl⟩ := List.map_eq_cons_iff.1 hks'
    obtain ⟨rfl, rfl⟩ := Prod.mk.inj hky
    obtain ⟨us, hus, hall⟩ := @entries_found s r (s ++ r) true _ hs [] (by simp)
    obtain ⟨us₁, ⟨_, _⟩, us₂, rfl, -, ⟨rfl, hw, r', hr', rfl⟩, hus₂⟩ := forall₂_middle.1 hall
    obtain ⟨part, rest, hpart, hrest⟩ := ih hw hr' rfl
    refine ⟨part, rest, ?_, hrest⟩
    have hfound : (us₂.reverse ++ (k', w ++ r') :: us₁.reverse).lookup k' = some (w ++ r') := by
      have hkeys : ks₂.map Prod.fst = us₂.map Prod.fst :=
        map_fst_eq (R := fun t u => ValueText t ∧ ∃ r', Ends r' ∧ u = t ++ r') hus₂
      refine lookup_append_cons fun hmem => hlast ?_
      rw [List.map_reverse, List.mem_reverse, ← hkeys] at hmem
      simpa [Function.comp_def] using hmem
    rw [List.append_assoc, List.cons_append, skipBlanks_append_cons hb (by decide)] at hcs
    rw [List.foldlM_cons, partAt_object hcs]
    simp only [entryAt, hus, Except.toOption, Option.bind_some]
    simpa [hfound] using hpart

end Found

/-! ### Reading again -/

lemma endText_eq_ok {cs : List Char} : endText cs = .ok () ↔ Blanks cs := by
  rw [endText]
  split
  · next h => simp [blanks_of_skipBlanks h]
  · next h =>
    simp only [reduceCtorEq, false_iff]
    exact fun hb => h (skipBlanks_eq_nil hb)

section Run

variable {α γ : Type} {shown : γ → Prop} {p : FromText α} {path : List Part} {look : α → Option γ}
  {put : Json → α → α} {text : String} {a : α} {c : γ}

lemma run_eq_ok (hp : ∀ depth, Reader (p depth)) :
    FromText.run p text = .ok a ↔
      ∃ t r, text.toList = t ++ r ∧ Blanks r ∧ Piece (p FromText.depthLimit) t a := by
  constructor
  · intro h
    obtain ⟨⟨a', r⟩, hfront, hend⟩ := bind_eq_ok.1 h
    obtain ⟨⟨⟩, hblanks, hpure⟩ := bind_eq_ok.1 hend
    obtain rfl : a' = a := by simpa using hpure
    obtain ⟨t, ht, hpiece⟩ := (hp _).piece hfront
    exact ⟨t, r, ht, endText_eq_ok.1 (liftText_eq_ok.1 hblanks), hpiece⟩
  · rintro ⟨t, r, ht, hr, hpiece⟩
    simp only [FromText.run, ht, hpiece.reads r (ends_of_blanks hr), ok_bind,
      endText_eq_ok.2 hr, liftText_ok, pure_eq_ok]

/-- A text that a reader accepts is accepted again with a part replaced by another value, and what
is read differs in what the reader of that part gives. -/
theorem run_replaceAt {new cs : List Char} {v : Json} {room : Nat}
    (hp : ∀ depth, Reader (p depth)) (hfocus : Focused shown p path look put)
    (hread : FromText.run p text = .ok a) (hlook : look a = some c)
    (hcs : replaceAt path new text.toList = some cs) (hnew : value room new = .ok (v, []))
    (hroom : path.length + room = FromText.depthLimit) :
    FromText.run p (String.ofList cs) = .ok (put v a) := by
  obtain ⟨t, r, ht, hr, hpiece⟩ := (run_eq_ok hp).1 hread
  rw [ht] at hcs
  obtain ⟨t', rfl, -, hedit⟩ := replaceAt_edit hpiece.text (ends_of_blanks hr) hcs hnew
  rw [hroom] at hedit
  have hread' := hfocus.edit hedit ((hp _).reads_iff.2 hpiece) hlook
  exact (run_eq_ok hp).2 ⟨t', r, String.toList_ofList, hr, (hp _).reads_iff.1 hread'⟩

/-- What is shown was read from a part of the text that can be replaced. -/
theorem exists_replaceAt (hp : ∀ depth, Reader (p depth))
    (hfocus : Focused shown p path look put) (hread : FromText.run p text = .ok a)
    (hlook : look a = some c) (hc : shown c) (new : List Char) :
    ∃ cs, replaceAt path new text.toList = some cs := by
  obtain ⟨t, r, ht, hr, hpiece⟩ := (run_eq_ok hp).1 hread
  have hwhole : FromText.At FromText.depthLimit p t a := (hp _).reads_iff.2 hpiece
  have hhas : Has (m := FromText) path (FromText.depthLimit, t) := hfocus.has hwhole hlook hc
  obtain ⟨part, rest, hpart, hrest⟩ := hhas.exists_part hpiece.text (ends_of_blanks hr) rfl
  rw [← ht] at hpart
  refine ⟨text.toList.take (text.toList.length - part.length) ++ (new ++ rest), ?_⟩
  simp [replaceAt, hpart, hrest, Except.toOption]

end Run

end ZodGraph.Json
