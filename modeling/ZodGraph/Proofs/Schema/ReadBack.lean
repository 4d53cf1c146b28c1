import ZodGraph.Proofs.Schema.Lexeme
import ZodGraph.Proofs.Script.Literal

/-!
What a script engine reads where a string literal or a key stands: the string or name it was
written for, whatever the characters in it and whatever follows. So different names are different
keys.
-/

namespace ZodGraph

namespace Script

/-! ### Different strings have different values -/

lemma unit_inj {m n : Nat} (hm : m < 0x10000) (hn : n < 0x10000)
    (h : UInt16.ofNat m = UInt16.ofNat n) : m = n := by
  have hnat := congrArg UInt16.toNat h
  rw [UInt16.toNat_ofNat', UInt16.toNat_ofNat'] at hnat
  omega

/-- The units of a character can be told from those that follow. -/
lemma charUnits_inj {c d : Char} {r r' : List UInt16}
    (h : charUnits c ++ r = charUnits d ++ r') : c = d ∧ r = r' := by
  have hc : c.toNat < 0xd800 ∨ 0xdfff < c.toNat ∧ c.toNat < 0x110000 := c.valid
  have hd : d.toNat < 0xd800 ∨ 0xdfff < d.toNat ∧ d.toNat < 0x110000 := d.valid
  suffices hnat : c.toNat = d.toNat ∧ r = r' from ⟨Char.toNat_inj.1 hnat.1, hnat.2⟩
  unfold charUnits pointUnits at h
  split_ifs at h with hc' hd' hd'
  · obtain ⟨hunit, hrest⟩ := List.cons.inj h
    exact ⟨unit_inj hc' hd' hunit, hrest⟩
  · -- no character is a surrogate
    have := unit_inj hc' (by omega) (List.cons.inj h).1
    omega
  · have := unit_inj (by omega) hd' (List.cons.inj h).1
    omega
  · obtain ⟨hhigh, htail⟩ := List.cons.inj h
    obtain ⟨hlow, hrest⟩ := List.cons.inj htail
    have := unit_inj (by omega) (by omega) hhigh
    have := unit_inj (by omega) (by omega) hlow
    exact ⟨by omega, hrest⟩

lemma charUnits_ne_nil (c : Char) : charUnits c ≠ [] := by
  unfold charUnits pointUnits
  split_ifs <;> simp

theorem units_injective : Function.Injective units := by
  intro s t h
  have hend : ∀ (c : Char) (r : List UInt16), [] ≠ charUnits c ++ r := by
    intro c r hnil
    exact charUnits_ne_nil c (List.append_eq_nil_iff.1 hnil.symm).1
  have hflat : s.toList.flatMap charUnits ++ [] = t.toList.flatMap charUnits ++ [] := by
    simpa [units] using h
  have hlist := Schema.flatMap_inj (fun _ => True) (fun _ _ _ _ _ _ _ _ => charUnits_inj)
    (fun _ _ => trivial) trivial trivial hend hend hflat
  exact String.toList_inj.1 hlist.1

end Script

namespace Schema

open Script

/-! ### String literals -/

/-- A character inside the quotes is read as itself. -/
lemma stringRest_escapeChar (c : Char) (r : List Char) :
    stringRest '"' (escapeChar c ++ r) =
      (stringRest '"' r).map fun q => (charUnits c ++ q.1, q.2) := by
  unfold escapeChar
  split
  · exact stringRest_escape (by decide) (by simp [escapeUnits, endsLine, singleEscape])
  · exact stringRest_escape (by decide) (by simp [escapeUnits, endsLine, singleEscape])
  · exact stringRest_escape (by decide) (by simp [escapeUnits, endsLine, singleEscape])
  · exact stringRest_escape (by decide) (by simp [escapeUnits, endsLine, singleEscape])
  · next hescape hquote hfeed hreturn =>
    exact stringRest_plain hquote hescape (not_or.2 ⟨hfeed, hreturn⟩) r

lemma stringRest_escaped (cs r : List Char) :
    stringRest '"' (cs.flatMap escapeChar ++ '"' :: r) = some (cs.flatMap charUnits, r) := by
  induction cs with
  | nil => simp [stringRest]
  | cons c cs ih =>
    rw [List.flatMap_cons, List.append_assoc, stringRest_escapeChar, ih, List.flatMap_cons]
    rfl

/-- A string literal is read as its string, and ends where it should. -/
theorem readString_stringLiteral (s : String) (r : List Char) :
    readString ((stringLiteral s).toList ++ r) = some (units s, r) := by
  rw [toList_stringLiteral, List.append_assoc]
  exact stringRest_escaped s.toList r

/-- Puts a text in the place of every occurrence of a character. -/
def replaceAll (c : Char) (text cs : List Char) : List Char :=
  cs.flatMap fun d => if d = c then text else [d]

/-- The replacements that escape a string. Backslashes come first, since the other replacements
bring new ones. -/
def escapePasses : List (Char × List Char) :=
  [('\\', ['\\', '\\']), ('"', ['\\', '"']), ('\n', ['\\', 'n']), ('\r', ['\\', 'r'])]

/-- Escaping in one pass is the same as replacing one character after the other. -/
lemma escape_eq_passes (s : String) :
    (escape s).toList = escapePasses.foldl (fun t p => replaceAll p.1 p.2 t) s.toList := by
  simp only [escape, String.toList_ofList, escapePasses, List.foldl_cons, List.foldl_nil,
    replaceAll, List.flatMap_assoc]
  refine List.flatMap_congr fun c _ => ?_
  unfold escapeChar
  split <;> simp_all

/-! ### Keys -/

/-- Plain names are written in the first 128 characters. -/
lemma toNat_lt_of_isNameChar {c : Char} (h : isNameChar c = true) : c.toNat < 128 := by
  have halnum : c.isAlphanum = (decide ('A'.val ≤ c.val ∧ c.val ≤ 'Z'.val) ||
      ('a'.val ≤ c.val && c.val ≤ 'z'.val) || ('0'.val ≤ c.val && c.val ≤ '9'.val)) := rfl
  simp only [isNameChar, halnum, Bool.or_eq_true, Bool.and_eq_true, decide_eq_true_eq,
    UInt32.le_iff_toNat_le] at h
  rcases h with (((⟨-, h⟩ | ⟨-, h⟩) | ⟨-, h⟩) | rfl) | rfl
  · exact h.trans_lt (by decide)
  · exact h.trans_lt (by decide)
  · exact h.trans_lt (by decide)
  · decide
  · decide

variable (u : Alphabet)

lemma continuesName_of_isNameChar {c : Char} (h : isNameChar c = true) :
    u.continuesName c = true ∧ c ≠ '\\' := by
  refine ⟨?_, by rintro rfl; cases h⟩
  rw [Alphabet.continuesName, u.continues_ascii c (toNat_lt_of_isNameChar h)]
  simp only [isNameChar, Bool.or_eq_true] at h ⊢
  tauto

lemma startsName_of_isNameStart {c : Char} (h : isNameStart c = true) :
    u.startsName c = true ∧ c ≠ '\\' := by
  refine ⟨?_, by rintro rfl; cases h⟩
  have hlt := toNat_lt_of_isNameChar (isNameChar_of_isNameStart h)
  rw [Alphabet.startsName, u.starts_ascii c hlt]
  simp only [isNameStart, Bool.or_eq_true] at h ⊢
  tauto

/-- A colon does not go on with a name. -/
lemma nameChar_colon (r : List Char) : nameChar u.continuesName (':' :: r) = none := by
  have hcolon : u.continuesName ':' = false := by
    rw [Alphabet.continuesName, u.continues_ascii ':' (by decide)]
    rfl
  simp [nameChar, hcolon]

lemma readName_bare {name : String} {r : List Char} (h : needsQuotes name = false)
    (hr : nameChar u.continuesName r = none) :
    readName u (name.toList ++ r) = some (units name, r) := by
  unfold needsQuotes at h
  split at h
  · cases h
  · next c cs hname =>
    simp only [Bool.or_eq_false_iff, Bool.not_eq_false', List.all_eq_true] at h
    obtain ⟨hstart, hescape⟩ := startsName_of_isNameStart u h.1
    have hrest := nameRest_append (fun d hd => continuesName_of_isNameChar u (h.2 d hd)) hr
    rw [readName, units, hname, List.cons_append, nameChar_plain hstart hescape, Option.map_some,
      hrest, List.flatMap_cons]

lemma readString_bare {name : String} (h : needsQuotes name = false) (r : List Char) :
    readString (name.toList ++ r) = none := by
  obtain ⟨hplain, c, cs, hname⟩ := plainName_of_bare h
  have hc := plainName_iff.1 hplain c (by simp [hname])
  rw [hname, List.cons_append]
  unfold readString
  split
  · next hcons =>
    rw [(List.cons.inj hcons).1] at hc
    cases hc
  · next hcons =>
    rw [(List.cons.inj hcons).1] at hc
    cases hc
  · rfl

/-- A key is read as its name, in quotes or not, if no more of a name follows. -/
theorem readPropertyName_key (name : String) {r : List Char}
    (hr : nameChar u.continuesName r = none) :
    readPropertyName u ((key name).toList ++ r) = some (units name, r) := by
  unfold readPropertyName key
  split_ifs with hquotes
  · rw [readString_stringLiteral, Option.some_or]
  · have hbare : needsQuotes name = false := by simpa using hquotes
    rw [readString_bare hbare, Option.none_or, readName_bare u hbare hr]

lemma readPropertyName_whole (name : String) :
    readPropertyName u (key name).toList = some (units name, []) := by
  simpa using readPropertyName_key u name (r := []) rfl

/-- **Literals and keys are read back**: a string literal ends where its closing quote stands,
whatever follows, and has the value of its string; a key has the value of its name, alone and
before a colon. So different names are different keys. Inside the quotes stands what four
replacements over the whole string give, backslashes first. -/
theorem literals_read_back :
    (∀ s r, readString ((stringLiteral s).toList ++ r) = some (units s, r)) ∧
    (∀ s, (escape s).toList = escapePasses.foldl (fun t p => replaceAll p.1 p.2 t) s.toList) ∧
    (∀ name, readPropertyName u (key name).toList = some (units name, [])) ∧
    (∀ name r, readPropertyName u ((key name).toList ++ ':' :: r) = some (units name, ':' :: r)) ∧
    ∀ a b, readPropertyName u (key a).toList = readPropertyName u (key b).toList ↔ a = b := by
  refine ⟨readString_stringLiteral, escape_eq_passes, readPropertyName_whole u,
    fun name r => readPropertyName_key u name (nameChar_colon u r), fun a b => ?_⟩
  rw [readPropertyName_whole, readPropertyName_whole]
  constructor
  · intro h
    exact units_injective (Prod.mk.inj (Option.some.inj h)).1
  · rintro rfl
    rfl

end Schema

end ZodGraph
