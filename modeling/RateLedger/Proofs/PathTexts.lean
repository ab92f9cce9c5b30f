import RateLedger.Files.Path

/-!
# Paths written out

The written form of a path is read back as the path (`ofText_text`): its parts hold no slash, so the
slashes in front give its start and the others part it, and what is left out on reading is never a
part.
-/

namespace RateLedger.Files

theorem isPart_iff {text : String} :
    isPart text = true ↔ text ≠ "" ∧ text ≠ "." ∧ '/' ∉ text.toList := by
  simp [isPart, and_assoc]

namespace Path

/-- A row of parts does not start with a slash. -/
theorem takeWhile_slash_intercalate {parts : List String} (h : ∀ part ∈ parts, isPart part = true) :
    (['/'].intercalate (parts.map String.toList)).takeWhile (· == '/') = [] := by
  cases parts with
  | nil => rfl
  | cons part others =>
    obtain ⟨hne, -, hslash⟩ := isPart_iff.1 (h part List.mem_cons_self)
    obtain ⟨c, chars, hchars⟩ : ∃ c chars, part.toList = c :: chars :=
      List.exists_cons_of_ne_nil fun hnil => hne (String.toList_eq_nil_iff.1 hnil)
    have hc : (c == '/') = false := by
      rw [beq_eq_false_iff_ne]
      rintro rfl
      exact hslash (hchars ▸ List.mem_cons_self)
    cases others with
    | nil => simp [List.intercalate_singleton, hchars, hc]
    | cons other others => simp [List.intercalate_cons_cons, hchars, hc]

/-- The parts are found between slashes, however many stand in front. -/
theorem filter_splitOn {parts : List String} (h : ∀ part ∈ parts, isPart part = true)
    (slashes : Nat) :
    (((List.replicate slashes '/' ++ ['/'].intercalate (parts.map String.toList)).splitOn '/').map
      String.ofList).filter isPart = parts := by
  have hslash : ∀ row ∈ parts.map String.toList, '/' ∉ row := by
    intro row hrow
    obtain ⟨part, hpart, rfl⟩ := List.mem_map.1 hrow
    exact (isPart_iff.1 (h part hpart)).2.2
  induction slashes with
  | zero =>
    rw [List.replicate_zero, List.nil_append]
    by_cases hnil : parts = []
    · subst hnil
      rfl
    · have hne : parts.map String.toList ≠ [] := by simpa using hnil
      have hid : String.ofList ∘ String.toList = id := funext fun _ => String.ofList_toList
      rw [List.splitOn_intercalate '/' hslash hne, List.map_map, hid, List.map_id,
        List.filter_eq_self.2 h]
  | succ slashes ih =>
    have hsplit : ∀ chars, List.splitOn '/' ('/' :: chars) = [] :: List.splitOn '/' chars :=
      List.splitOn_append_cons_self_of_not_mem List.not_mem_nil
    rw [List.replicate_succ, List.cons_append, hsplit, List.map_cons,
      List.filter_cons_of_neg (by decide), ih]

/-- The slashes in front of the parts of a path. -/
theorem exists_slashes (path : Path) (h : ¬(path.anchor = .here ∧ path.parts = [])) :
    ∃ slashes, Anchor.ofSlashes slashes = path.anchor ∧ path.text.toList =
      List.replicate slashes '/' ++ ['/'].intercalate (path.parts.map String.toList) := by
  have hslash : "/".toList = ['/'] := rfl
  unfold text
  rw [if_neg h, String.toList_append, String.toList_intercalate, hslash]
  cases path.anchor with
  | here => exact ⟨0, rfl, rfl⟩
  | root => exact ⟨1, rfl, rfl⟩
  | doubleRoot => exact ⟨2, rfl, rfl⟩

/-- The written form of a path is read back as the path. -/
theorem ofText_text (path : Path) : ofText path.text = path := by
  obtain ⟨anchor, parts, hparts⟩ := path
  by_cases hplace : anchor = .here ∧ parts = []
  · obtain ⟨rfl, rfl⟩ := hplace
    have hdot : text ⟨.here, [], hparts⟩ = "." := if_pos ⟨rfl, rfl⟩
    rw [hdot]
    rfl
  · obtain ⟨slashes, hanchor, htext⟩ := exists_slashes ⟨anchor, parts, hparts⟩ hplace
    dsimp only at hanchor htext
    unfold ofText
    rw [Path.mk.injEq, htext]
    refine ⟨?_, filter_splitOn hparts slashes⟩
    rw [List.takeWhile_append_of_pos (by simp), takeWhile_slash_intercalate hparts]
    simp [hanchor]

end Path

end RateLedger.Files
