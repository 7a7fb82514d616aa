import QueryPlanner.Proofs.Template.Spans

/-!
# Directives in encoded text

Offsets in a template count bytes, and the brace that closes a directive can be looked for in the
encoded text without decoding it.  The characters that matter to the search take one byte each.  A
character that takes more has only larger bytes, none of which can be mistaken for them: where a
backslash protects the first of them, the others need no protection.  So the search in bytes finds
the same brace as the search in characters, and it passes over whatever can be read as tokens.

## Main definitions

* `bytes` — the encoded text.
* `closingByte?` — how many bytes stand before the closing brace.
* `directiveEnd?` — the offset of the brace that closes a directive.

## Main results

* `closingByte?_bytes` — **searching in bytes is searching in characters**.
* `directiveEnd?_eq` — the same for a directive that opens anywhere in a text.
* `directiveEnd?_of_tokenize` — **a content that can be read as tokens ends at the brace after it**.
-/

namespace QueryPlanner

namespace Template

/-! ### Encoded texts -/

/-- The encoded text. -/
def bytes (cs : List Char) : List UInt8 := cs.flatMap String.utf8EncodeChar

theorem bytes_cons (c : Char) (cs : List Char) :
    bytes (c :: cs) = String.utf8EncodeChar c ++ bytes cs := rfl

theorem bytes_append (xs ys : List Char) : bytes (xs ++ ys) = bytes xs ++ bytes ys :=
  List.flatMap_append

theorem length_bytes (cs : List Char) : (bytes cs).length = byteSize cs := by
  induction cs with
  | nil => rfl
  | cons c cs ih => rw [bytes_cons, List.length_append, String.length_utf8EncodeChar, ih, byteSize]

theorem bytes_toList (s : String) : bytes s.toList = s.toUTF8.data.toList := by
  rw [String.toUTF8_eq_toByteArray, ← String.utf8Encode_toList, List.utf8Encode,
    List.data_toByteArray]
  rfl

theorem utf8Size_eq_one_iff_toNat (c : Char) : c.utf8Size = 1 ↔ c.toNat ≤ 0x7F := by
  rw [Char.utf8Size_eq_one_iff, UInt32.le_iff_toNat_le]
  rfl

theorem toNat_toUInt8 {c : Char} (h : c.utf8Size = 1) : c.toUInt8.toNat = c.toNat := by
  rw [utf8Size_eq_one_iff_toNat] at h
  exact Nat.mod_eq_of_lt (Nat.lt_of_le_of_lt h (by decide))

theorem toUInt8_inj {c d : Char} (hc : c.utf8Size = 1) (hd : d.utf8Size = 1) :
    c.toUInt8 = d.toUInt8 ↔ c = d := by
  rw [← UInt8.toNat_inj, toNat_toUInt8 hc, toNat_toUInt8 hd, Char.toNat_inj]

/-- The bytes of a character that takes more than one are larger than those of the others. -/
theorem lt_toNat_of_mem_utf8EncodeChar {c : Char} (hc : c.utf8Size ≠ 1) :
    ∀ b ∈ String.utf8EncodeChar c, 0x7F < b.toNat := by
  intro b hb
  rw [Ne, utf8Size_eq_one_iff_toNat] at hc
  simp only [String.utf8EncodeChar, show ¬ c.val.toNat ≤ 0x7F from hc, if_false] at hb
  -- By the number of bytes; each is a sum with at least 0x80.
  split at hb
  · simp only [List.mem_cons, List.not_mem_nil, or_false] at hb
    rcases hb with rfl | rfl <;> rw [UInt8.toNat_ofNat'] <;> omega
  split at hb
  · simp only [List.mem_cons, List.not_mem_nil, or_false] at hb
    rcases hb with rfl | rfl | rfl <;> rw [UInt8.toNat_ofNat'] <;> omega
  · simp only [List.mem_cons, List.not_mem_nil, or_false] at hb
    rcases hb with rfl | rfl | rfl | rfl <;> rw [UInt8.toNat_ofNat'] <;> omega

theorem ne_toUInt8_of_lt {b : UInt8} (hb : 0x7F < b.toNat) {c : Char} (hc : c.utf8Size = 1) :
    b ≠ c.toUInt8 := by
  rintro rfl
  rw [toNat_toUInt8 hc] at hb
  rw [utf8Size_eq_one_iff_toNat] at hc
  omega

/-! ### Searching in bytes -/

/-- How many bytes stand before the brace that closes a directive.  Braces in quoted texts do not
count: `inText` tells whether the bytes start inside one, and `isEscaped` whether the first one is
protected there. -/
def closingByte? : Bool → Bool → List UInt8 → Option Nat
  | _, _, [] => none
  | inText, true, _ :: bs => (closingByte? inText false bs).map (· + 1)
  | inText, false, b :: bs =>
    if b = '}'.toUInt8 && !inText then some 0
    else
      let step :=
        if b = '\\'.toUInt8 && inText then closingByte? inText true bs
        else if b = '"'.toUInt8 then closingByte? (!inText) false bs
        else closingByte? inText false bs
      step.map (· + 1)

/-- The offset of the brace that closes the directive opened by the brace at an offset. -/
def directiveEnd? (text : String) (opening : Nat) : Option Nat :=
  (closingByte? false false (text.toUTF8.data.toList.drop (opening + 1))).map (opening + 1 + ·)

/-- A large byte is passed over, protected or not. -/
theorem closingByte?_cons_of_lt {b : UInt8} (hb : 0x7F < b.toNat) (inText isEscaped : Bool)
    (bs : List UInt8) :
    closingByte? inText isEscaped (b :: bs) = (closingByte? inText false bs).map (· + 1) := by
  cases isEscaped with
  | true => rfl
  | false =>
    have hbrace : b ≠ '}'.toUInt8 := ne_toUInt8_of_lt hb rfl
    have hslash : b ≠ '\\'.toUInt8 := ne_toUInt8_of_lt hb rfl
    have hquote : b ≠ '"'.toUInt8 := ne_toUInt8_of_lt hb rfl
    simp [closingByte?, hbrace, hslash, hquote]

/-- Large bytes are passed over, and protecting the first of them makes no difference. -/
theorem closingByte?_append_of_lt {xs : List UInt8} (hne : xs ≠ [])
    (hlarge : ∀ b ∈ xs, 0x7F < b.toNat) (inText isEscaped : Bool) (ys : List UInt8) :
    closingByte? inText isEscaped (xs ++ ys) =
      (closingByte? inText false ys).map (· + xs.length) := by
  induction xs generalizing isEscaped with
  | nil => exact absurd rfl hne
  | cons b bs ih =>
    rw [List.cons_append, closingByte?_cons_of_lt (hlarge b (by simp))]
    cases bs with
    | nil => rfl
    | cons d ds =>
      rw [ih (by simp) (fun e he => hlarge e (by simp [he])) false, Option.map_map]
      simp [Function.comp_def, Nat.add_assoc]

/-- **Searching in bytes is searching in characters.** -/
theorem closingByte?_bytes (inText isEscaped : Bool) (cs : List Char) :
    closingByte? inText isEscaped (bytes cs) =
      (closing? inText isEscaped cs).map fun r => byteSize r.1 := by
  induction cs generalizing inText isEscaped with
  | nil => rfl
  | cons c cs ih =>
    -- Passing over the character moves the brace by its bytes.
    have hpass : ∀ inText isEscaped : Bool,
        (closingByte? inText isEscaped (bytes cs)).map (· + c.utf8Size) =
          ((closing? inText isEscaped cs).map fun r => (c :: r.1, r.2)).map
            fun r => byteSize r.1 := by
      intro inText isEscaped
      rw [ih, Option.map_map, Option.map_map]
      simp [Function.comp_def, byteSize, Nat.add_comm]
    by_cases hc : c.utf8Size = 1
    · -- The character is its only byte, and both searches make the same tests.
      rw [hc] at hpass
      rw [bytes_cons, String.utf8EncodeChar_eq_singleton hc, Char.toUInt8_val,
        List.singleton_append]
      cases isEscaped with
      | true => exact hpass inText false
      | false =>
        simp only [closingByte?, closing?, toUInt8_inj hc (show '}'.utf8Size = 1 from rfl),
          toUInt8_inj hc (show '\\'.utf8Size = 1 from rfl),
          toUInt8_inj hc (show '"'.utf8Size = 1 from rfl)]
        split
        · rfl
        split
        · exact hpass inText true
        split
        · exact hpass (!inText) false
        · exact hpass inText false
    · -- Neither the character nor any of its bytes matters to the search.
      have hother : ∀ d : Char, d.utf8Size = 1 → c ≠ d := by
        rintro d hd rfl
        exact hc hd
      have hchar : closing? inText isEscaped (c :: cs) =
          (closing? inText false cs).map fun r => (c :: r.1, r.2) := by
        cases isEscaped with
        | true => rfl
        | false => simp [closing?, hother '}' rfl, hother '\\' rfl, hother '"' rfl]
      rw [bytes_cons, closingByte?_append_of_lt String.utf8EncodeChar_ne_nil
        (lt_toNat_of_mem_utf8EncodeChar hc), String.length_utf8EncodeChar, hpass, hchar]

/-- **The offset of the closing brace** of a directive that opens anywhere in a text is found in its
bytes. -/
theorem directiveEnd?_eq (before rest : String) :
    directiveEnd? (before ++ "\x7b" ++ rest) before.utf8ByteSize =
      (closing? false false rest.toList).map fun r => before.utf8ByteSize + 1 + byteSize r.1 := by
  have hsize : before.utf8ByteSize + 1 = (bytes (before.toList ++ ['{'])).length := by
    rw [length_bytes, byteSize_append, byteSize_toList]
    rfl
  have hdrop : (before ++ "\x7b" ++ rest).toUTF8.data.toList.drop (before.utf8ByteSize + 1) =
      bytes rest.toList := by
    rw [← bytes_toList, String.toList_append, String.toList_append, bytes_append, hsize]
    exact List.drop_left
  rw [directiveEnd?, hdrop, closingByte?_bytes, Option.map_map]
  rfl

/-! ### Contents that can be read -/

theorem lex_of_tokenize {content : String} {tokens : List (Located Token)}
    (h : Token.tokenize content = .ok tokens) : (Token.lex .asRead 0 content.toList).2 = none := by
  rw [Token.tokenize] at h
  split at h
  · next hlex => rw [hlex]
  · cases h

/-- **A content that can be read as tokens ends at the brace after it**, whatever follows: the
directive has this content, and the offset of the brace is found in the bytes. -/
theorem directiveEnd?_of_tokenize (content following : String) (tokens : List (Located Token))
    (h : Token.tokenize content = .ok tokens) :
    closing? false false (content ++ "\x7d" ++ following).toList =
        some (content.toList, following.toList) ∧
      directiveEnd? ("\x7b" ++ content ++ "\x7d" ++ following) 0 =
        some (1 + content.utf8ByteSize) := by
  have hclosing : closing? false false (content ++ "\x7d" ++ following).toList =
      some (content.toList, following.toList) := by
    rw [String.toList_append, String.toList_append, List.append_assoc]
    exact closing?_of_lex (lex_of_tokenize h) following.toList
  refine ⟨hclosing, ?_⟩
  have hend := directiveEnd?_eq "" (content ++ "\x7d" ++ following)
  rw [hclosing, Option.map_some, byteSize_toList] at hend
  simpa [String.append_assoc] using hend

/-- A quoted text with a brace, a quote, a protected character of two bytes and a backslash at its
end, in front of a text with a brace. -/
theorem directiveEnd?_of_tokenize_quotedBrace :
    (let content := "pick:x, \"a\x7d\\\"\\é\\\\\""
      let tokens : List (Located Token) := [⟨.ident "pick", ⟨0, 4⟩⟩, ⟨.colon, ⟨4, 5⟩⟩,
        ⟨.ident "x", ⟨5, 6⟩⟩, ⟨.comma, ⟨6, 7⟩⟩, ⟨.text "a\x7d\"\\é\\", ⟨8, 19⟩⟩]
      Token.tokenize content = .ok tokens ∧
        directiveEnd? ("\x7b" ++ content ++ "\x7d" ++ " = \"\x7d\"") 0 = some 20) := by
  intro content tokens
  have htokens : Token.tokenize content = .ok tokens :=
    toOption_eq_some_iff.mp (by decide +kernel)
  have hsize : 1 + content.utf8ByteSize = 20 := by decide
  refine ⟨htokens, ?_⟩
  rw [(directiveEnd?_of_tokenize content _ tokens htokens).2, hsize]

end Template

end QueryPlanner
