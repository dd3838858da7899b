import Mathlib.Data.List.Basic
import IconConstraints.AttributeTable

/-!
# Classes of entries

The classes of a table are found by joining its entries one after another.  After
any number of entries, the classes stand for distinct identities, each holds
exactly the codepoints of the entries with its identity, and no entry is without
a class.
-/

namespace IconConstraints.AttributeTable.RuleClass

/-! ## Joining -/

theorem join_of_new {new : RuleClass} {found : List RuleClass}
    (hnew : ∀ c ∈ found, c.identity ≠ new.identity) :
    new.join found = found ++ [new] := by
  induction found with
  | nil => rfl
  | cons c rest ih =>
      rw [join, if_neg (hnew c (by simp)), ih fun d hd => hnew d (by simp [hd])]
      rfl

theorem join_of_known {new c : RuleClass} {before after : List RuleClass}
    (hbefore : ∀ d ∈ before, d.identity ≠ new.identity)
    (hc : c.identity = new.identity) :
    new.join (before ++ c :: after) =
      before ++ { c with codepoints := new.codepoints ++ c.codepoints } :: after := by
  induction before with
  | nil => rw [List.nil_append, join, if_pos hc]; rfl
  | cons d before ih =>
      rw [List.cons_append, join, if_neg (hbefore d (by simp)),
        ih fun x hx => hbefore x (by simp [hx])]
      rfl

/-! ## The invariant -/

/-- What the classes found so far say of the entries joined so far. -/
structure Grouped (entries : List (Codepoint × AttributeEntry))
    (found : List RuleClass) : Prop where
  distinct : found.Pairwise fun c d => c.identity ≠ d.identity
  identity_eq : ∀ c ∈ found, c.constraint.identity = c.identity
  inhabited : ∀ c ∈ found, c.codepoints ≠ []
  mem_iff : ∀ c ∈ found, ∀ cp, cp ∈ c.codepoints ↔
    ∃ e, (cp, e) ∈ entries ∧ (Constraint.ofEntry e).identity = c.identity
  covered : ∀ cp e, (cp, e) ∈ entries →
    ∃ c ∈ found, c.identity = (Constraint.ofEntry e).identity

theorem Grouped.nil : Grouped [] [] :=
  ⟨.nil, by simp, by simp, by simp, by simp⟩

private theorem mem_single {cp x : Codepoint} {entry : AttributeEntry} :
    x ∈ (single cp entry).codepoints ↔ x = cp := by
  simp [single]

/-- An entry with an identity of its own makes a class of its own. -/
private theorem Grouped.add {entries : List (Codepoint × AttributeEntry)}
    {found : List RuleClass} {cp : Codepoint} {entry : AttributeEntry}
    (h : Grouped entries found)
    (hnew : ∀ c ∈ found, c.identity ≠ (single cp entry).identity) :
    Grouped (entries ++ [(cp, entry)]) (found ++ [single cp entry]) := by
  constructor
  case distinct =>
    refine List.pairwise_append.mpr ⟨h.distinct, by simp, ?_⟩
    intro c hc d hd
    obtain rfl := List.mem_singleton.mp hd
    exact hnew c hc
  case identity_eq =>
    intro c hc
    rcases List.mem_append.mp hc with hc | hc
    · exact h.identity_eq c hc
    · obtain rfl := List.mem_singleton.mp hc
      rfl
  case inhabited =>
    intro c hc
    rcases List.mem_append.mp hc with hc | hc
    · exact h.inhabited c hc
    · obtain rfl := List.mem_singleton.mp hc
      simp [single]
  case mem_iff =>
    intro c hc x
    rcases List.mem_append.mp hc with hc | hc
    · rw [h.mem_iff c hc]
      have hne : (Constraint.ofEntry entry).identity ≠ c.identity :=
        fun heq => hnew c hc heq.symm
      grind
    · obtain rfl := List.mem_singleton.mp hc
      rw [mem_single]
      have hold : ∀ e, (x, e) ∈ entries →
          (Constraint.ofEntry e).identity ≠ (single cp entry).identity := by
        intro e he heq
        obtain ⟨c, hc, hid⟩ := h.covered x e he
        exact hnew c hc (hid.trans heq)
      constructor
      · rintro rfl
        exact ⟨entry, by simp, rfl⟩
      · rintro ⟨e, he, heq⟩
        rcases List.mem_append.mp he with he | he
        · exact absurd heq (hold e he)
        · simp at he
          exact he.1
  case covered =>
    intro x e he
    rcases List.mem_append.mp he with he | he
    · obtain ⟨c, hc, hid⟩ := h.covered x e he
      exact ⟨c, by simp [hc], hid⟩
    · simp at he
      obtain ⟨rfl, rfl⟩ := he
      exact ⟨single x e, by simp, rfl⟩

/-- An entry with a known identity joins the class that has it. -/
private theorem Grouped.extend {entries : List (Codepoint × AttributeEntry)}
    {before after : List RuleClass} {c : RuleClass} {cp : Codepoint}
    {entry : AttributeEntry} (h : Grouped entries (before ++ c :: after))
    (hc : c.identity = (single cp entry).identity) :
    Grouped (entries ++ [(cp, entry)])
      (before ++ { c with codepoints := cp :: c.codepoints } :: after) := by
  have hids : (before ++ { c with codepoints := cp :: c.codepoints } :: after).map
      (·.identity) = (before ++ c :: after).map (·.identity) := by simp
  have hentry : (Constraint.ofEntry entry).identity = c.identity := hc.symm
  have hothers : ∀ d ∈ before ++ after, d.identity ≠ c.identity := by
    have := h.distinct
    grind [List.pairwise_cons]
  have hmem : ∀ d, d ∈ before ++ { c with codepoints := cp :: c.codepoints } :: after →
      d ∈ before ++ after ∨ d = { c with codepoints := cp :: c.codepoints } := by
    intro d hd
    grind
  have hkept : ∀ d ∈ before ++ after, d ∈ before ++ c :: after := by
    intro d hd
    grind
  constructor
  case distinct =>
    rw [← List.pairwise_map (f := RuleClass.identity) (R := (· ≠ ·)), hids, List.pairwise_map]
    exact h.distinct
  case identity_eq =>
    intro d hd
    rcases hmem d hd with hd | rfl
    · exact h.identity_eq d (hkept d hd)
    · exact h.identity_eq c (by simp)
  case inhabited =>
    intro d hd
    rcases hmem d hd with hd | rfl
    · exact h.inhabited d (hkept d hd)
    · simp
  case mem_iff =>
    intro d hd x
    rcases hmem d hd with hd | rfl
    · rw [h.mem_iff d (hkept d hd)]
      have hne := hothers d hd
      grind
    · have hcp := h.mem_iff c (by simp) x
      simp only [List.mem_cons, hcp]
      grind
  case covered =>
    intro x e he
    have hfound : ∀ d ∈ before ++ c :: after, ∃ d' ∈ before ++
        { c with codepoints := cp :: c.codepoints } :: after, d'.identity = d.identity := by
      intro d hd
      have hid : d.identity ∈ (before ++ c :: after).map (·.identity) :=
        List.mem_map_of_mem hd
      rw [← hids] at hid
      exact List.mem_map.mp hid
    rcases List.mem_append.mp he with he | he
    · obtain ⟨d, hd, hid⟩ := h.covered x e he
      obtain ⟨d', hd', heq⟩ := hfound d hd
      exact ⟨d', hd', heq.trans hid⟩
    · simp at he
      obtain ⟨rfl, rfl⟩ := he
      obtain ⟨d, hd, heq⟩ := hfound c (by simp)
      exact ⟨d, hd, heq.trans hc⟩

theorem Grouped.join {entries : List (Codepoint × AttributeEntry)}
    {found : List RuleClass} (h : Grouped entries found) (cp : Codepoint)
    (entry : AttributeEntry) :
    Grouped (entries ++ [(cp, entry)]) ((single cp entry).join found) := by
  by_cases hknown : ∃ c ∈ found, c.identity = (single cp entry).identity
  · obtain ⟨c, hmem, hc⟩ := hknown
    obtain ⟨before, after, rfl⟩ := List.append_of_mem hmem
    have hbefore : ∀ d ∈ before, d.identity ≠ (single cp entry).identity := by
      intro d hd
      rw [← hc]
      exact (List.pairwise_append.mp h.distinct).2.2 d hd c (by simp)
    rw [join_of_known hbefore hc]
    exact h.extend hc
  · have hnew : ∀ c ∈ found, c.identity ≠ (single cp entry).identity :=
      fun c hc heq => hknown ⟨c, hc, heq⟩
    rw [join_of_new hnew]
    exact h.add hnew

theorem Grouped.foldl {before : List (Codepoint × AttributeEntry)}
    {found : List RuleClass} (h : Grouped before found)
    (entries : List (Codepoint × AttributeEntry)) :
    Grouped (before ++ entries)
      (entries.foldl (fun found (cp, entry) => (single cp entry).join found) found) := by
  induction entries generalizing before found with
  | nil => simpa using h
  | cons p rest ih =>
      have := ih (h.join p.1 p.2)
      simpa using this

/-! ## Constraints of classes -/

theorem mem_join {new c : RuleClass} {found : List RuleClass} (h : c ∈ new.join found) :
    c.constraint = new.constraint ∨ ∃ d ∈ found, c.constraint = d.constraint := by
  induction found with
  | nil => exact .inl (congrArg RuleClass.constraint (List.mem_singleton.mp h))
  | cons d rest ih =>
      unfold join at h
      split at h
      case isTrue =>
        rcases List.mem_cons.mp h with rfl | h
        · exact .inr ⟨d, List.mem_cons_self, rfl⟩
        · exact .inr ⟨c, List.mem_cons_of_mem d h, rfl⟩
      case isFalse =>
        rcases List.mem_cons.mp h with rfl | h
        · exact .inr ⟨c, List.mem_cons_self, rfl⟩
        · exact (ih h).imp_right fun ⟨e, he, heq⟩ => ⟨e, List.mem_cons_of_mem d he, heq⟩

theorem mem_foldl_join {c : RuleClass} (entries : List (Codepoint × AttributeEntry))
    {found : List RuleClass}
    (h : c ∈ entries.foldl (fun found (cp, entry) => (single cp entry).join found) found) :
    (∃ e ∈ entries, c.constraint = .ofEntry e.2) ∨ ∃ d ∈ found, c.constraint = d.constraint := by
  induction entries generalizing found with
  | nil => exact .inr ⟨c, h, rfl⟩
  | cons e rest ih =>
      rcases ih h with ⟨later, hlater, heq⟩ | ⟨d, hd, heq⟩
      · exact .inl ⟨later, List.mem_cons_of_mem e hlater, heq⟩
      · rcases mem_join hd with hnew | ⟨old, hold, hkept⟩
        · exact .inl ⟨e, List.mem_cons_self, heq.trans hnew⟩
        · exact .inr ⟨old, hold, heq.trans hkept⟩

end IconConstraints.AttributeTable.RuleClass

namespace IconConstraints

theorem AttributeTable.classes_constraint {t : AttributeTable} {c : RuleClass}
    (h : c ∈ t.classes) : ∃ e ∈ t.entries, c.constraint = .ofEntry e.2 := by
  rcases RuleClass.mem_foldl_join t.entries h with hentry | ⟨d, hd, -⟩
  · exact hentry
  · cases hd

theorem AttributeTable.classes_grouped (t : AttributeTable) :
    RuleClass.Grouped t.entries t.classes :=
  RuleClass.Grouped.nil.foldl t.entries

end IconConstraints
