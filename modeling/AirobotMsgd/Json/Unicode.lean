/-
The characters of a string, however they are written in the text: as they are, in UTF-8; by one of the short escapes;
or in hexadecimal, as a code unit or a surrogate pair (`Spells`). `parse_string` gives their UTF-8.
-/
import AirobotMsgd.Json.Tokens

namespace AirobotMsgd.Json11

open AirobotMsgd.Bytes AirobotMsgd.JsonText

/-- the number that four hexadecimal digits denote -/
def unitValue (a b c d : UInt8) : ℕ := [a, b, c, d].foldl (fun v b => v * 16 + hexVal b) 0

/-- the ways to write a character in a string -/
inductive Spells (x : Char) : Str → Prop
  | raw (h : x.toNat ≠ 34 ∧ x.toNat ≠ 92 ∧ 0x1f < x.toNat) : Spells x (String.utf8EncodeChar x)
  | escape {ch b : UInt8} (h : unescape ch = some b) (hb : x.toNat = b.toNat) : Spells x [92, ch]
  | unit {a b c d : UInt8} (h : [a, b, c, d].all isHex = true) (hx : unitValue a b c d = x.toNat) :
      Spells x [92, 117, a, b, c, d]
  | pair {a b c d a' b' c' d' : UInt8} (h : [a, b, c, d].all isHex = true) (h' : [a', b', c', d'].all isHex = true)
      (hx : 0x10000 ≤ x.toNat) (hlead : unitValue a b c d = 0xD800 + (x.toNat - 0x10000) / 1024)
      (htrail : unitValue a' b' c' d' = 0xDC00 + (x.toNat - 0x10000) % 1024) :
      Spells x [92, 117, a, b, c, d, 92, 117, a', b', c', d']

/-- a string that is written in these ways -/
inductive Spelled : List Char → Str → Prop
  | nil : Spelled [] []
  | cons {x : Char} {xs : List Char} {t u : Str} (h : Spells x t) (hs : Spelled xs u) : Spelled (x :: xs) (t ++ u)

theorem toNat_le (x : Char) : x.toNat ≤ 0x10ffff ∧ ¬ (0xD800 ≤ x.toNat ∧ x.toNat ≤ 0xDFFF) := by
  have hvalid : x.toNat.isValidChar := x.valid
  unfold Nat.isValidChar at hvalid
  omega

theorem utf8_toNat (x : Char) : utf8 x.toNat = String.utf8EncodeChar x := by
  have hle := (toNat_le x).1
  have hval : x.val.toNat = x.toNat := rfl
  simp only [utf8, String.utf8EncodeChar, hval]
  generalize x.toNat = n at *
  split_ifs <;> first | omega | rfl | skip
  · rw [Nat.mod_eq_of_lt (by omega : n / 64 < 0x20), Nat.add_comm, Nat.add_comm (n % 64)]
  · rw [Nat.mod_eq_of_lt (by omega : n / 4096 < 0x10), Nat.add_comm, Nat.add_comm (n % 64), Nat.add_comm (n / 64 % 64)]
  · rw [Nat.mod_eq_of_lt (by omega : n / 262144 < 0x08), Nat.add_comm, Nat.add_comm (n % 64),
      Nat.add_comm (n / 64 % 64), Nat.add_comm (n / 4096 % 64)]

/-- a character that stands there as it is -/
theorem exists_raw (bs : Str) (h : ∀ b ∈ bs, b ≠ 34 ∧ b ≠ 92 ∧ 0x1f < b) :
    ∃ items : List Item, items.flatMap Item.text = bs ∧
      ∀ ps, decodePieces (items.map Item.piece ++ ps) = bs ++ decodePieces ps := by
  induction bs with
  | nil => exact ⟨[], rfl, fun _ => rfl⟩
  | cons b bs ih =>
    obtain ⟨items, htext, hpieces⟩ := ih fun c hc => h c (List.mem_cons_of_mem b hc)
    refine ⟨.raw b (h b List.mem_cons_self) :: items, by rw [List.flatMap_cons, htext]; rfl, fun ps => ?_⟩
    rw [List.map_cons, List.cons_append, Item.piece, decodePieces, hpieces, List.cons_append]

theorem not_ascii {k : ℕ} (hlow : 0x80 ≤ k) (hhigh : k < 0x100) :
    (UInt8.ofNat k).toNat ≠ 34 ∧ (UInt8.ofNat k).toNat ≠ 92 ∧ 0x1f < (UInt8.ofNat k).toNat := by
  rw [UInt8.toNat_ofNat', Nat.mod_eq_of_lt hhigh]
  omega

theorem raw_ok {x : Char} (h : x.toNat ≠ 34 ∧ x.toNat ≠ 92 ∧ 0x1f < x.toNat) :
    ∀ b ∈ String.utf8EncodeChar x, b ≠ 34 ∧ b ≠ 92 ∧ 0x1f < b := by
  intro b hb
  have hle := (toNat_le x).1
  have hval : x.val.toNat = x.toNat := rfl
  suffices hn : b.toNat ≠ 34 ∧ b.toNat ≠ 92 ∧ 0x1f < b.toNat by
    refine ⟨?_, ?_, UInt8.lt_iff_toNat_lt.2 hn.2.2⟩ <;> rintro rfl
    · exact hn.1 rfl
    · exact hn.2.1 rfl
  simp only [String.utf8EncodeChar, hval] at hb
  generalize x.toNat = n at *
  split_ifs at hb <;> simp only [List.mem_cons, List.not_mem_nil, or_false] at hb
  · subst hb
    rw [UInt8.toNat_ofNat', Nat.mod_eq_of_lt (by omega)]
    exact h
  -- the other bytes are not ASCII
  · rcases hb with rfl | rfl <;> exact not_ascii (by omega) (by omega)
  · rcases hb with rfl | rfl | rfl <;> exact not_ascii (by omega) (by omega)
  · rcases hb with rfl | rfl | rfl | rfl <;> exact not_ascii (by omega) (by omega)

theorem unescape_ascii {ch b : UInt8} (h : unescape ch = some b) : b.toNat < 0x80 := by
  unfold unescape at h
  split_ifs at h with h1 h2 h3 h4 h5 h6
  all_goals first | (obtain rfl := Option.some.inj h; decide) | skip
  rcases h6 with rfl | rfl | rfl <;> (obtain rfl := Option.some.inj h; decide)

/-- **A character is decoded to its UTF-8**, whatever stands behind it. -/
theorem decode_spells {x : Char} {t : Str} (h : Spells x t) :
    ∃ items : List Item, items.flatMap Item.text = t ∧
      ∀ ps, decodePieces (items.map Item.piece ++ ps) = String.utf8EncodeChar x ++ decodePieces ps := by
  have hx := toNat_le x
  cases h with
  | raw h => exact exists_raw _ (raw_ok h)
  | @escape ch b h hb =>
    refine ⟨[.escape ch b h], rfl, fun ps => ?_⟩
    have hlt := unescape_ascii h
    rw [← utf8_toNat, hb, utf8, if_pos hlt, UInt8.ofNat_toNat]
    rfl
  | @unit a b c d h hval =>
    refine ⟨[.unit a b c d h], rfl, fun ps => ?_⟩
    have hlead : isLead (unitValue a b c d) = false := by
      rw [hval, isLead, Bool.and_eq_false_iff, decide_eq_false_iff_not, decide_eq_false_iff_not]
      omega
    rw [← utf8_toNat, ← hval]
    exact decodePieces_unit hlead ps
  | @pair a b c d a' b' c' d' h h' hlow hlead htrail =>
    refine ⟨[.unit a b c d h, .unit a' b' c' d' h'], rfl, fun ps => ?_⟩
    have hl : isLead (unitValue a b c d) = true := by
      rw [hlead, isLead, Bool.and_eq_true, decide_eq_true_eq, decide_eq_true_eq]
      omega
    have ht : isTrail (unitValue a' b' c' d') = true := by
      rw [htrail, isTrail, Bool.and_eq_true, decide_eq_true_eq, decide_eq_true_eq]
      omega
    have hpoint : pairPoint (unitValue a b c d) (unitValue a' b' c' d') = x.toNat := by
      rw [pairPoint, hlead, htrail]
      omega
    rw [← utf8_toNat, ← hpoint]
    exact decodePieces_pair hl ht ps

theorem decode_spelled {xs : List Char} {t : Str} (h : Spelled xs t) :
    ∃ items : List Item, items.flatMap Item.text = t ∧ decode items = xs.flatMap String.utf8EncodeChar := by
  induction h with
  | nil => exact ⟨[], rfl, rfl⟩
  | cons h _ ih =>
    obtain ⟨items, htext, hpieces⟩ := decode_spells h
    obtain ⟨items', htext', hdecode⟩ := ih
    refine ⟨items ++ items', by rw [List.flatMap_append, htext, htext'], ?_⟩
    rw [decode, List.map_append, hpieces, ← decode, hdecode, List.flatMap_cons]

theorem toUTF8_ofList (xs : List Char) :
    (String.ofList xs).toUTF8.data.toList = xs.flatMap String.utf8EncodeChar := by
  simp [List.utf8Encode]

/-- **A string of the text is read as its UTF-8**, however its characters are written, and the parser stands behind it. -/
theorem parseString_spelled {xs : List Char} {t : Str} (h : Spelled xs t) {p : JsonParser} {tail : Str}
    (hp : p.rest = t ++ 34 :: tail) :
    p.parseString = ((String.ofList xs).toUTF8.data.toList, { p with rest := tail }) := by
  obtain ⟨items, htext, hdecode⟩ := decode_spelled h
  rw [← htext] at hp
  rw [JsonParser.parseString_items items hp, hdecode, toUTF8_ofList]

/-- as it is, by a short escape, as a code unit, and as a surrogate pair -/
theorem parseString_spelled_four :
    JsonParser.parseString ⟨[0xc3, 0xa9] ++ ascii "\\n\\u0041\\ud83d\\uDE00\" ]", [], false, false⟩ =
      ((String.ofList [Char.ofNat 0xe9, Char.ofNat 10, Char.ofNat 65, Char.ofNat 0x1f600]).toUTF8.data.toList,
        ⟨ascii " ]", [], false, false⟩) := by
  have hunit : Spells (Char.ofNat 65) (ascii "\\u0041") := @Spells.unit _ 48 48 52 49 (by decide) (by decide)
  have hpair : Spells (Char.ofNat 0x1f600) (ascii "\\ud83d\\uDE00") :=
    @Spells.pair _ 100 56 51 100 68 69 48 48 (by decide) (by decide) (by decide) (by decide) (by decide)
  exact parseString_spelled (.cons (.raw (by decide)) (.cons (.escape rfl rfl) (.cons hunit (.cons hpair .nil)))) rfl

end AirobotMsgd.Json11
