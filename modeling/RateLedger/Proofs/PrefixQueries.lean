import RateLedger.Proofs.IdentityRows
import RateLedger.Proofs.Scannable

/-!
# Texts that ask for observations

The text of a question is put behind the root as it is, and keys are compared with it byte by byte.
So it asks for the observations of the pairs whose identifiers it begins; and as nothing ends an
identifier in a key, also for those where it goes on behind the identifier with the first bytes of
the second. These start with a zero, so plain texts only ask for what they begin
(`identity_prefix_timed_iff_of_plain`), and for the others it depends on what is stored
(`text_queries`).
-/

namespace RateLedger

namespace Bytes

/-- No character's UTF-8 form goes on in another one. -/
theorem ofText_prefix_iff {s t : String} : ofText s <+: ofText t ↔ s.toList <+: t.toList := by
  rw [ofText_eq_flatMap, ofText_eq_flatMap]
  constructor
  · rintro ⟨rest, hrest⟩
    refine List.isPrefix_of_utf8Encode_append_eq_utf8Encode rest.toByteArray ?_
    unfold List.utf8Encode
    rw [← hrest, List.toByteArray_append]
  · rintro ⟨rest, hrest⟩
    rw [← hrest, List.flatMap_append]
    exact List.prefix_append _ _

theorem ofText_prefix_append_iff {s t : String} {rest : Bytes} :
    ofText s <+: ofText t ++ rest ↔
      s.toList <+: t.toList ∨ ∃ tail, s = t ++ tail ∧ ofText tail <+: rest := by
  constructor
  · intro h
    rcases List.prefix_or_prefix_of_prefix h (List.prefix_append _ _) with hshort | hlong
    · exact .inl (ofText_prefix_iff.1 hshort)
    · obtain ⟨tail, htail⟩ := ofText_prefix_iff.1 hlong
      have hs : s = t ++ String.ofList tail := by
        rw [← String.toList_inj, String.toList_append, String.toList_ofList, htail]
      refine .inr ⟨_, hs, ?_⟩
      rw [hs, ofText_append] at h
      exact (List.prefix_append_right_inj _).1 h
  · rintro (h | ⟨tail, rfl, htail⟩)
    · exact (ofText_prefix_iff.2 h).trans (List.prefix_append _ _)
    · rw [ofText_append]
      exact (List.prefix_append_right_inj _).2 htail

end Bytes

namespace Key

variable {q p : String} {t : Int}

theorem timed_eq_under (p : String) (t : Int) :
    timed p t = under root (Bytes.ofText p ++ Bytes.signedWord t) :=
  List.append_assoc _ _ _

/-- What a text asks for. -/
theorem identity_prefix_timed_iff :
    identity q <+: timed p t ↔
      q.toList <+: p.toList ∨
        ∃ tail, q = p ++ tail ∧ Bytes.ofText tail <+: Bytes.signedWord t := by
  rw [← Bytes.ofText_prefix_append_iff, timed_eq_under]
  exact List.prefix_append_right_inj _

/-- Plain texts only ask for the identifiers that they begin. -/
theorem identity_prefix_timed_iff_of_plain (hq : IsPlain q) (ht : Bytes.IsModerate t) :
    identity q <+: timed p t ↔ q.toList <+: p.toList := by
  refine identity_prefix_timed_iff.trans (or_iff_left_of_imp ?_)
  rintro ⟨tail, rfl, htail⟩
  obtain ⟨rest, hword⟩ := Bytes.head_signedWord ht
  rw [hword] at htail
  cases hbytes : Bytes.ofText tail with
  | nil =>
    obtain rfl : tail = "" := Bytes.ofText_injective hbytes
    simp
  | cons byte later =>
    -- the first byte of a moderate number does not begin a plain text
    rw [hbytes] at htail
    have hbyte : byte = if 0 ≤ t then 0 else 255 := (List.cons_prefix_cons.1 htail).1
    have hmem : byte ∈ Bytes.ofText (p ++ tail) := by
      rw [Bytes.ofText_append, hbytes]
      exact List.mem_append_right _ List.mem_cons_self
    rw [hbyte] at hmem
    split at hmem
    · exact absurd hmem (Bytes.zero_not_mem_ofText hq)
    · exact absurd hmem (Bytes.full_not_mem_ofText _)

theorem timed_eq_identity_iff :
    timed p t = identity q ↔ ∃ tail, q = p ++ tail ∧ Bytes.ofText tail = Bytes.signedWord t := by
  rw [timed_eq_under]
  unfold identity
  constructor
  · intro h
    have hbytes : Bytes.ofText p ++ Bytes.signedWord t = Bytes.ofText q := List.append_cancel_left h
    obtain ⟨tail, htail⟩ := Bytes.ofText_prefix_iff.1 (hbytes ▸ List.prefix_append _ _)
    have hq : q = p ++ String.ofList tail := by
      rw [← String.toList_inj, String.toList_append, String.toList_ofList, htail]
    rw [hq, Bytes.ofText_append] at hbytes
    exact ⟨_, hq, (List.append_cancel_left hbytes).symm⟩
  · rintro ⟨tail, rfl, htail⟩
    rw [Bytes.ofText_append, htail]

end Key

namespace Table

variable {table : Table}

/-- What is shown of the rows of a prefix is what is shown under keys with the prefix. -/
theorem shown_range (table : Table) (pre : Bytes) :
    (table.range pre (Key.upperBound? pre)).filterMap shown? =
      (table.rows.filterMap shown?).filter fun x => pre.isPrefixOf (Key.ofObservation x) := by
  unfold range
  rw [List.filterMap_filter, List.filter_filterMap]
  refine List.filterMap_congr fun row _ => ?_
  cases hshown : shown? row with
  | none => simp
  | some x =>
    obtain ⟨-, hkey⟩ := shown?_eq_some_iff.1 hshown
    have hrange : inRange pre (Key.upperBound? pre) row.1 =
        pre.isPrefixOf (Key.ofObservation x) := by
      rw [hkey, Bool.eq_iff_iff, Key.inRange_upperBound_iff, List.isPrefixOf_iff_prefix]
    rw [hrange]
    rfl

/-- A text is an identifier with a newest observation, or the key of an observation, which is
refused, or neither, and not found. -/
theorem Holds.readNewest_of_text {h : History} (hholds : table.Holds h) (q : String) :
    (∃ x, h.IsNewest x ∧ x.pairId = q ∧ table.readNewest q = .ok x) ∨
      (∃ x, h.Has x ∧ Key.ofObservation x = Key.identity q ∧ ¬IsPlain q ∧
        table.readNewest q = .error (.foreignIdentity q x.pairId)) ∨
      ((∀ x, h.Has x → x.pairId ≠ q ∧ Key.ofObservation x ≠ Key.identity q) ∧
        table.readNewest q = .error (.notFound q)) := by
  by_cases hforeign : ∃ x, h.Has x ∧ Key.ofObservation x = Key.identity q
  · obtain ⟨x, hx, hkey⟩ := hforeign
    exact .inr (.inl ⟨x, hx, hkey, hholds.readNewest_of_entry hx hkey⟩)
  · have hfree : ∀ x, h.Has x → Key.ofObservation x ≠ Key.identity q :=
      fun x hx hkey => hforeign ⟨x, hx, hkey⟩
    by_cases hpair : ∃ x, h.Has x ∧ x.pairId = q
    · obtain ⟨y, hy, rfl⟩ := hpair
      obtain ⟨x, hx, hsame⟩ := History.exists_isNewest hy
      have hplain : IsPlain y.pairId := (hholds.ordinary y hy).pairId
      exact .inl ⟨x, hx, hsame, hholds.readNewest_of_isNewest hplain hx hsame⟩
    · have hnone : ∀ x, h.Has x → x.pairId ≠ q := fun x hx hsame => hpair ⟨x, hx, hsame⟩
      exact .inr (.inr ⟨fun x hx => ⟨hnone x hx, hfree x hx⟩,
        hholds.readNewest_of_free hnone hfree⟩)

end Table

namespace Store

/-- What a scan shows of a sound table for a text. -/
theorem reads_ofText {s : Store} {view : View} (hview : s.CanRead view)
    (hsound : (s.table view).IsSound) (q : String) :
    s.Reads view (Cursor.ofText view q).toList (.ok (((s.table view).rows.filterMap shown?).filter
      fun x => (Key.identity q).isPrefixOf (Key.ofObservation x))) := by
  rw [← Table.shown_range]
  exact reads_ofPrefix hview (fun row hrow _ => hsound row hrow) (Key.root_prefix_identity q)

/-- After any ordinary calls, on the committed table and in an open batch alike, every text can be
asked for. A scan for it shows, of what a full scan shows, the observations of the pairs whose
identifiers it begins, and those where it goes on behind the identifier with the first bytes of the
second; so a plain text only asks for identifiers. Where the text is an identifier, the newest
observation of the pair is read; where it goes on behind one with all eight bytes of a second, the
row under it is refused as that of another pair; and everything else is not found. -/
theorem text_queries (calls : List Call) (hcalls : ∀ call ∈ calls, call.IsOrdinary) (view : View)
    (hview : (fresh.after calls).CanRead view) :
    let s := fresh.after calls
    ∃ list, (s.perform (Cursor.all view).toList).1 = .ok list ∧ ∀ q,
      (∃ found, (s.perform (Cursor.ofText view q).toList).1 = .ok found ∧ found.Sublist list ∧
        (∀ x, x ∈ found ↔ x ∈ list ∧ (q.toList <+: x.pairId.toList ∨
          ∃ tail, q = x.pairId ++ tail ∧ Bytes.ofText tail <+: Bytes.signedWord x.seconds)) ∧
        (IsPlain q → found = list.filter fun x => q.toList.isPrefixOf x.pairId.toList)) ∧
      ((∃ x ∈ list, x.pairId = q ∧ (∀ y ∈ list, y.pairId = q → y.seconds ≤ x.seconds) ∧
          (s.perform (newest view q)).1 = .ok x) ∨
        (∃ x ∈ list, (∃ tail, q = x.pairId ++ tail ∧
            Bytes.ofText tail = Bytes.signedWord x.seconds) ∧ ¬IsPlain q ∧
          (s.perform (newest view q)).1 = .error (.foreignIdentity q x.pairId)) ∨
        ((∀ x ∈ list, x.pairId ≠ q ∧
            ¬∃ tail, q = x.pairId ++ tail ∧ Bytes.ofText tail = Bytes.signedWord x.seconds) ∧
          (s.perform (newest view q)).1 = .error (.notFound q))) := by
  intro s
  have h : s.Mirrors (Ledger.fresh.after calls) := mirrors_after hcalls
  obtain ⟨history, hhistory⟩ := h.exists_history hview
  obtain ⟨-, hholds⟩ := h.table hhistory
  have hlists := hholds.lists
  obtain ⟨_, hall⟩ := (reads_all_of_isSound hview hholds.isSound).perform h.reliable
  refine ⟨_, congrArg Prod.fst hall, fun q => ⟨?_, ?_⟩⟩
  · obtain ⟨_, htext⟩ := (reads_ofText hview hholds.isSound q).perform h.reliable
    refine ⟨_, congrArg Prod.fst htext, List.filter_sublist, fun x => ?_, fun hq => ?_⟩
    · rw [List.mem_filter, List.isPrefixOf_iff_prefix]
      exact and_congr_right fun _ => Key.identity_prefix_timed_iff
    · refine List.filter_congr fun x _ => ?_
      rw [Bool.eq_iff_iff, List.isPrefixOf_iff_prefix, List.isPrefixOf_iff_prefix]
      exact Key.identity_prefix_timed_iff_of_plain hq (Bytes.isModerate_second x.inTime)
  · obtain ⟨_, hnewest⟩ := (reads_newest hview q).perform h.reliable
    rw [congrArg Prod.fst hnewest]
    rcases hholds.readNewest_of_text q with ⟨x, hx, hpair, hread⟩ |
      ⟨x, hx, hkey, hplain, hread⟩ | ⟨hnone, hread⟩
    · refine .inl ⟨x, (hlists.mem x).2 hx.has, hpair, fun y hy hsame => ?_, hread⟩
      exact hx.le y ((hlists.mem y).1 hy) (hsame.trans hpair.symm)
    · exact .inr (.inl ⟨x, (hlists.mem x).2 hx, Key.timed_eq_identity_iff.1 hkey, hplain, hread⟩)
    · refine .inr (.inr ⟨fun x hx => ?_, hread⟩)
      obtain ⟨hpair, hkey⟩ := hnone x ((hlists.mem x).1 hx)
      exact ⟨hpair, mt Key.timed_eq_identity_iff.2 hkey⟩

/-- A text that goes on behind an identifier with the bytes of a second is taken for a key. -/
theorem text_taken_for_key :
    let calls := [.openBatch ⟨0⟩, .edit 0 (.save lettered), .commit 0]
    let s := fresh.after calls
    let begun := "EUR2USD\x00"
    let whole := "EUR2USD\x00\x00\x00\x00AAAA"
    ((∀ call ∈ calls, call.IsOrdinary) ∧ s.CanRead .committed) ∧
    (s.perform (Cursor.all .committed).toList).1 = .ok [lettered] ∧
    ¬begun.toList <+: lettered.pairId.toList ∧
    (s.perform (Cursor.ofText .committed begun).toList).1 = .ok [lettered] ∧
    lettered.pairId ≠ whole ∧
    (s.perform (newest .committed whole)).1 = .error (.foreignIdentity whole "EUR2USD") := by
  intro calls s begun whole
  have hordinary : lettered.IsOrdinary := ⟨by decide, by decide, by decide, by decide⟩
  have hcalls : ∀ call ∈ calls, call.IsOrdinary := by
    intro call hcall
    simp only [calls, List.mem_cons, List.not_mem_nil, or_false] at hcall
    rcases hcall with rfl | rfl | rfl
    · trivial
    · exact hordinary
    · trivial
  have hscan : (s.perform (Cursor.all .committed).toList).1 = .ok [lettered] := by decide +kernel
  obtain ⟨list, hlist, htexts⟩ := text_queries calls hcalls .committed trivial
  obtain rfl : list = [lettered] := Except.ok.inj (hlist.symm.trans hscan)
  refine ⟨⟨hcalls, trivial⟩, hscan, by decide, ?_, by decide, ?_⟩
  · obtain ⟨⟨found, hfound, hsub, hmem, -⟩, -⟩ := htexts begun
    have hx : lettered ∈ found :=
      (hmem lettered).2 ⟨List.mem_cons_self, .inr ⟨"\x00", by decide, by decide +kernel⟩⟩
    rw [hfound, hsub.eq_of_length_le (List.length_pos_of_mem hx)]
  · have hkey : whole = lettered.pairId ++ "\x00\x00\x00\x00AAAA" ∧
        Bytes.ofText "\x00\x00\x00\x00AAAA" = Bytes.signedWord lettered.seconds := by
      decide +kernel
    rcases (htexts whole).2 with ⟨x, hx, hpair, -⟩ | ⟨x, hx, -, -, hread⟩ | ⟨hnone, -⟩
    · rw [List.mem_singleton.1 hx] at hpair
      exact absurd hpair (by decide)
    · rw [List.mem_singleton.1 hx] at hread
      exact hread
    · exact absurd ⟨_, hkey⟩ (hnone lettered List.mem_cons_self).2

end Store

end RateLedger
