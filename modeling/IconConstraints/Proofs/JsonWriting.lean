import IconConstraints.Json.Writing
import IconConstraints.Proofs.JsonStructures

/-!
# Written JSON texts

What is written for a value is a text of this value, and the bytes of a text are read as its
characters.  A library that writes this way and reads every text follows JSON.
-/

namespace IconConstraints

/-! ## Bytes and characters -/

namespace Text

theorem charactersFrom_append (bs rest : List UInt8) :
    charactersFrom bs.length (bs ++ rest) = charactersFrom 0 rest := by
  induction bs with
  | nil => rfl
  | cons b bs ih => exact ih

/-- Four bytes are enough to read a character. -/
theorem leading?_encoded {c : Char} {b : UInt8} {bs : List UInt8}
    (hc : String.utf8EncodeChar c = b :: bs) (rest : List UInt8) :
    leading? b (bs ++ rest) = some c := by
  have hsize := String.length_utf8EncodeChar c
  rw [hc, List.length_cons] at hsize
  have hlength : bs.length ≤ 3 := by
    have hfour := Char.utf8Size_le_four c
    omega
  have hbytes : b :: (bs ++ rest).take 3 = String.utf8EncodeChar c ++ rest.take (3 - bs.length) := by
    rw [hc, List.take_append, List.take_of_length_le hlength, List.cons_append]
  rw [leading?, hbytes, List.toByteArray_append]
  exact ByteArray.utf8DecodeChar?_utf8EncodeChar_append

theorem charactersFrom_encoded (c : Char) (rest : List UInt8) :
    charactersFrom 0 (String.utf8EncodeChar c ++ rest) = some c :: charactersFrom 0 rest := by
  have hsize := String.length_utf8EncodeChar c
  cases hc : String.utf8EncodeChar c with
  | nil =>
      rw [hc] at hsize
      exact absurd hsize (Nat.ne_of_lt (Char.utf8Size_pos c))
  | cons b bs =>
      rw [hc, List.length_cons] at hsize
      have hskip : c.utf8Size - 1 = bs.length := by omega
      rw [List.cons_append, charactersFrom, leading?_encoded hc]
      dsimp only
      rw [hskip, charactersFrom_append]

theorem characters_toUTF8 (text : String) : characters text.toUTF8 = Json.input text.toList := by
  have hbytes : text.toUTF8.data.toList = text.toList.flatMap String.utf8EncodeChar := by
    rw [String.toUTF8, ← String.utf8Encode_toList, List.utf8Encode, List.data_toByteArray]
  rw [characters, hbytes]
  induction text.toList with
  | nil => rfl
  | cons c cs ih => rw [List.flatMap_cons, charactersFrom_encoded, ih, Json.input_cons]

end Text

namespace Json

/-! ## Strings -/

/-- The escape of a control has four digits, two of them zeros. -/
theorem spells_controlEscape {c : Char} (hc : c.toNat < 0x20) : Spells c (controlEscape c).toList := by
  have hdigits : ∀ n : Fin 32,
      (controlEscape (Char.ofNat n)).toList =
        ['\\', 'u', '0', '0', Nat.digitChar (n / 16), Nat.digitChar (n % 16)] ∧
      Text.hexValue? (Nat.digitChar (n / 16)) = some (n / 16 : Nat) ∧
      Text.hexValue? (Nat.digitChar (n % 16)) = some (n % 16 : Nat) := by decide
  obtain ⟨htext, hhigh, hlow⟩ := hdigits ⟨c.toNat, hc⟩
  dsimp only at htext hhigh hlow
  rw [Char.ofNat_toNat] at htext
  have hzero : Text.hexValue? '0' = some 0 := rfl
  have hfour := FourDigits.intro hzero hzero hhigh hlow
  have hnumber : 16 * (16 * (16 * 0 + 0) + c.toNat / 16) + c.toNat % 16 = c.toNat := by omega
  rw [hnumber] at hfour
  rw [htext]
  exact .numbered hfour

theorem spells_writtenChar (c : Char) : Spells c (writtenChar c).toList := by
  unfold writtenChar
  split
  case h_8 hquote hbackslash _ _ _ _ _ =>
    split
    case isTrue hcontrol => exact spells_controlEscape hcontrol
    case isFalse hcontrol =>
      rw [String.toList_singleton]
      exact .itself (Nat.le_of_not_lt hcontrol) hquote hbackslash
  all_goals exact .letter (by decide)

theorem isBody_written (cs : List Char) : IsBody cs (cs.flatMap fun c => (writtenChar c).toList) := by
  induction cs with
  | nil => exact .nil
  | cons c cs ih =>
      rw [List.flatMap_cons]
      exact .cons (spells_writtenChar c) ih

theorem isLiteral_written (s : String) : IsLiteral s (written s).toList := by
  refine ⟨_, isBody_written s.toList, ?_⟩
  simp [written, String.toList_join, List.flatMap_map]

/-! ## Arrays and objects -/

theorem newLine_blank (level : Nat) : ∀ c ∈ (newLine level).toList, c ∈ blanks := by
  intro c hc
  rw [newLine, String.toList_ofList, List.mem_cons] at hc
  rcases hc with rfl | hc
  · decide
  · rw [List.eq_of_mem_replicate hc]
    decide

/-- The text between brackets: the parts on lines of their own. -/
def between (level : Nat) (parts : List String) : String :=
  newLine (level + 1) ++ String.intercalate ("," ++ newLine (level + 1)) parts ++ newLine level

theorem toList_bracketed (left right : Char) (level : Nat) (part : String) (parts : List String) :
    (bracketed (String.singleton left) (String.singleton right) level (part :: parts)).toList =
      left :: ((between level (part :: parts)).toList ++ [right]) := by
  unfold bracketed between
  rw [List.isEmpty_cons, if_neg Bool.false_ne_true]
  simp

theorem toList_intercalate_cons (separator part next : String) (parts : List String) :
    (String.intercalate ("," ++ separator) (part :: next :: parts)).toList =
      part.toList ++ ',' :: (separator.toList ++
        (String.intercalate ("," ++ separator) (next :: parts)).toList) := by
  rw [String.intercalate_cons_cons]
  simp

section Layout

variable {before after : List Char}

theorem Around.of_before (hbefore : ∀ c ∈ before, c ∈ blanks) (inner : List Char) :
    Around inner (before ++ inner) :=
  ⟨before, [], hbefore, List.forall_mem_nil _, by rw [List.append_nil]⟩

theorem areItems_intercalate {tree : Tree} {items : List Tree} {part : String} {parts : List String}
    (hbefore : ∀ c ∈ before, c ∈ blanks) (hafter : ∀ c ∈ after, c ∈ blanks) (level : Nat)
    (htext : IsValue tree part.toList)
    (htexts : List.Forall₂ (fun tree text => IsValue tree text.toList) items parts) :
    AreItems (tree :: items) (before ++
      ((String.intercalate ("," ++ newLine level) (part :: parts)).toList ++ after)) := by
  induction htexts generalizing tree part before with
  | nil =>
      rw [String.intercalate_singleton]
      exact .last (.intro htext ⟨before, after, hbefore, hafter, rfl⟩)
  | @cons next text _ _ hnext _ ih =>
      have hrest := ih (newLine_blank level) hnext
      have hitems := AreItems.cons (.intro htext (.of_before hbefore _)) hrest
      rw [toList_intercalate_cons]
      simpa only [List.append_assoc, List.cons_append] using hitems

/-- The text of a member as it is written. -/
def memberText (m : String × String) : String :=
  written m.1 ++ ": " ++ m.2

theorem toList_memberText (m : String × String) :
    (memberText m).toList = (written m.1).toList ++ ':' :: ' ' :: m.2.toList := by
  simp [memberText]

theorem areMembers_intercalate {m : String × Tree} {ms : List (String × Tree)} {t : String × String}
    {ts : List (String × String)} (hbefore : ∀ c ∈ before, c ∈ blanks)
    (hafter : ∀ c ∈ after, c ∈ blanks) (level : Nat) (hname : m.1 = t.1)
    (htext : IsValue m.2 t.2.toList)
    (htexts : List.Forall₂ (fun m t => m.1 = t.1 ∧ IsValue m.2 t.2.toList) ms ts) :
    AreMembers (m :: ms) (before ++
      ((String.intercalate ("," ++ newLine level) ((t :: ts).map memberText)).toList ++ after)) := by
  have hblank : ∀ c ∈ [' '], c ∈ blanks := List.forall_mem_singleton.mpr (by decide)
  induction htexts generalizing m t before with
  | nil =>
      obtain ⟨name, tree⟩ := m
      obtain rfl : name = t.1 := hname
      have hmembers := AreMembers.last (isLiteral_written t.1) (.of_before hbefore _)
        (.intro htext ⟨[' '], after, hblank, hafter, rfl⟩)
      rw [List.map_cons, List.map_nil, String.intercalate_singleton, toList_memberText]
      simpa only [List.append_assoc, List.cons_append, List.nil_append] using hmembers
  | @cons next text _ _ hnext _ ih =>
      obtain ⟨name, tree⟩ := m
      obtain rfl : name = t.1 := hname
      have hrest := ih (newLine_blank level) hnext.1 hnext.2
      have hmembers := AreMembers.cons (isLiteral_written t.1) (.of_before hbefore _)
        (.intro htext (.of_before hblank _)) hrest
      rw [List.map_cons] at hmembers
      rw [List.map_cons, List.map_cons, toList_intercalate_cons, toList_memberText]
      simpa only [List.append_assoc, List.cons_append, List.nil_append] using hmembers

end Layout

theorem isValue_writtenArray {items : List Tree} {parts : List String} (level : Nat)
    (h : List.Forall₂ (fun tree text => IsValue tree text.toList) items parts) :
    IsValue (.array items) (writtenArray level parts).toList := by
  cases h with
  | nil =>
      have hempty : (writtenArray level []).toList = ['[', ']'] := by simp [writtenArray, bracketed]
      rw [hempty]
      exact .array (.none (.of_before (List.forall_mem_nil _) []))
  | @cons tree part items parts htext htexts =>
      have hitems := areItems_intercalate (newLine_blank (level + 1)) (newLine_blank level)
        (level + 1) htext htexts
      have hvalue := IsValue.array hitems
      rw [writtenArray, show "[" = String.singleton '[' from rfl,
        show "]" = String.singleton ']' from rfl, toList_bracketed, between]
      simpa only [String.toList_append, List.append_assoc] using hvalue

theorem isValue_writtenObject {ms : List (String × Tree)} {ts : List (String × String)} (level : Nat)
    (h : List.Forall₂ (fun m t => m.1 = t.1 ∧ IsValue m.2 t.2.toList) ms ts) :
    IsValue (.object ms) (writtenObject level ts).toList := by
  cases h with
  | nil =>
      have hempty : (writtenObject level []).toList = ['\x7b', '\x7d'] := by
        simp [writtenObject, bracketed]
      rw [hempty]
      exact .object (.none (.of_before (List.forall_mem_nil _) []))
  | @cons m t ms ts hmember hmembers =>
      have hmembers := areMembers_intercalate (newLine_blank (level + 1)) (newLine_blank level)
        (level + 1) hmember.1 hmember.2 hmembers
      have hvalue := IsValue.object hmembers
      change IsValue _ (bracketed (String.singleton '\x7b') (String.singleton '\x7d') level
        ((t :: ts).map memberText)).toList
      rw [List.map_cons] at hvalue ⊢
      rw [toList_bracketed, between]
      simpa only [String.toList_append, List.append_assoc] using hvalue

/-! ## Trees -/

mutual

theorem Tree.isValue_text : ∀ (tree : Tree) (level : Nat), IsValue tree (tree.text level).toList
  | .bool true, _ => .true
  | .bool false, _ => .false
  | .number n, _ => .number n
  | .string s, _ => .string (isLiteral_written s)
  | .array items, level => isValue_writtenArray level (isValue_itemTexts items (level + 1))
  | .object members, level => isValue_writtenObject level (isValue_memberTexts members (level + 1))

theorem isValue_itemTexts : ∀ (items : List Tree) (level : Nat),
    List.Forall₂ (fun tree text => IsValue tree text.toList) items (itemTexts level items)
  | [], _ => .nil
  | tree :: items, level => .cons (tree.isValue_text level) (isValue_itemTexts items level)

theorem isValue_memberTexts : ∀ (members : List (String × Tree)) (level : Nat),
    List.Forall₂ (fun m t => m.1 = t.1 ∧ IsValue m.2 t.2.toList) members (memberTexts level members)
  | [], _ => .nil
  | (_, tree) :: members, level => .cons ⟨rfl, tree.isValue_text level⟩ (isValue_memberTexts members level)

end

/-! ## The library -/

theorem library_followsJson : library.FollowsJson where
  written shape value _ := by
    refine ⟨_, rfl, ?_⟩
    exact .intro (Tree.isValue_text _ 0) (.of_before (List.forall_mem_nil _) _)
  read shape value text hfits _ htext := by
    have hread := whole_reads (shape.reads value hfits) htext
    change (whole shape.read (Text.characters text.toUTF8)).mapError _ = _
    rw [Text.characters_toUTF8, hread]
    rfl

end Json

end IconConstraints
