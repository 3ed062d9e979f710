/-
Imports stand one behind the other, in front of all types.
-/
import Rebind.Proofs.Edit.Resolution
import Rebind.Proofs.Java.Members

namespace Rebind

namespace Text

variable {α : Type}

theorem pairwise_matchesFrom (before : Before) (r : Recogniser α) : ∀ (t : Text) (skip : Nat) (prev : Option Char)
    (pos : Nat), (∀ m ∈ matchesFrom before r skip prev pos t, pos + skip ≤ m.start) ∧
      (matchesFrom before r skip prev pos t).Pairwise fun a b => a.stop ≤ b.start
  | [], skip, prev, pos => by
    rw [matchesFrom]
    split
    · next hskip =>
      cases hm : matchHere before r prev pos [] with
      | none => simp
      | some m =>
        obtain ⟨_, -, hstart, -⟩ := matchHere_eq_some hm
        simp [hstart, hskip]
    · simp
  | c :: t, skip + 1, prev, pos => by
    obtain ⟨hle, hpair⟩ := pairwise_matchesFrom before r t skip (some c) (pos + 1)
    refine ⟨fun m hm => ?_, hpair⟩
    have := hle m hm
    omega
  | c :: t, 0, prev, pos => by
    rw [matchesFrom]
    split
    · next m hm =>
      obtain ⟨hle, hpair⟩ := pairwise_matchesFrom before r t (m.stop - m.start - 1) (some c) (pos + 1)
      obtain ⟨_, -, hstart, -⟩ := matchHere_eq_some hm
      refine ⟨fun m' hm' => ?_, List.pairwise_cons.2 ⟨fun m' hm' => ?_, hpair⟩⟩
      · rcases List.mem_cons.1 hm' with rfl | hm'
        · omega
        · have := hle m' hm'
          omega
      · have := hle m' hm'
        omega
    · obtain ⟨hle, hpair⟩ := pairwise_matchesFrom before r t 0 (some c) (pos + 1)
      refine ⟨fun m hm => ?_, hpair⟩
      have := hle m hm
      omega

/-- Matches follow one another, so imports do. -/
theorem pairwise_allMatches (t : Text) (s e : Nat) (before : Before) (r : Recogniser α) :
    (allMatches t s e before r).Pairwise fun a b => a.stop ≤ b.start :=
  (pairwise_matchesFrom before r _ _ _ _).2

end Text

namespace Java

open Text List

theorem pairwise_imports (masked : Text) : (imports masked).Pairwise fun i j => i.span.stop ≤ j.span.start :=
  (pairwise_allMatches _ _ _ _ _).map _ fun _ _ h => h

theorem Import.Placed.start_lt {masked} {i : Import} (h : i.Placed masked) : i.span.start < i.span.stop := by
  obtain ⟨k, h1, h2, -⟩ := h.semicolon
  omega

section Unit

variable {text : Text} {unit : CompilationUnit} (h : readUnit text = .ok unit)

include h

theorem imports_of_readUnit : unit.imports = imports unit.masked := by
  obtain ⟨-, hmasked, himports, -⟩ := typesFrom_of_readUnit h
  rw [hmasked, himports]

theorem import_eq_of_covers {i j} (hi : i ∈ unit.imports) (hj : j ∈ unit.imports) {pos}
    (hpos : i.span.covers pos = true) (hpos' : j.span.covers pos = true) : i = j := by
  rw [Span.covers_iff] at hpos hpos'
  rw [imports_of_readUnit h] at hi hj
  rcases eq_or_of_pairwise (pairwise_imports unit.masked) hi hj with heq | hle | hle
  · exact heq
  · omega
  · omega

/-- The types of a file are looked for behind its last import, so no import stands in a type. -/
theorem import_stop_le_start {i} (hi : i ∈ unit.imports) {type : TypeDecl} (htype : type ∈ unit.types) :
    i.span.stop ≤ type.start := by
  have hplaced := (placed_of_readUnit h).2.imports
  obtain ⟨types, htypes, rfl⟩ := bind_pure_eq_ok.1 h
  have hlast : ∃ last, (imports (mask text)).getLast? = some last ∧ i.span.stop ≤ last.span.stop := by
    cases hlast : (imports (mask text)).getLast? with
    | none =>
      rw [getLast?_eq_none_iff.1 hlast] at hi
      cases hi
    | some last =>
      have hstart := (hplaced last (mem_of_getLast? hlast)).start_lt
      obtain ⟨front, hfront⟩ := getLast?_eq_some_iff.1 hlast
      have hpair := pairwise_imports (mask text)
      rw [hfront] at hi hpair
      refine ⟨last, rfl, ?_⟩
      rcases mem_append.1 hi with hi | hi
      · have := (pairwise_append.1 hpair).2.2 i hi last (mem_singleton.2 rfl)
        omega
      · obtain rfl := mem_singleton.1 hi
        exact Nat.le_refl _
  obtain ⟨last, hlast, hle⟩ := hlast
  simp only [hlast] at htypes
  exact Nat.le_trans hle ((typesFrom_spec (hplaced last (mem_of_getLast? hlast)).stop_le htypes).1 type htype).1

theorem importsEnd_le_start {type} (htype : type ∈ unit.types) : unit.importsEnd ≤ type.start := by
  obtain ⟨-, -, -, hle, htypes⟩ := typesFrom_of_readUnit h
  exact ((typesFrom_spec hle htypes).1 type htype).1

end Unit

end Java

end Rebind
