import SchemaVersioning.Family

/-!
# Versions by number

The versions of a family are numbered `1..n`, so each of these numbers belongs to a version, the
latest version has the number `n`, and the decoders are tried in the order `n, .., 1`.
-/

namespace SchemaVersioning

variable {f : Family}

theorem exists_number_iff {k : Nat} :
    (∃ v ∈ f.versions, v.number = k) ↔ 1 ≤ k ∧ k ≤ f.versions.length := by
  rw [← List.mem_map, f.numbered, List.mem_range'_1]
  omega

theorem number_bounds {v : SchemaVersion} (hv : v ∈ f.versions) :
    1 ≤ v.number ∧ v.number ≤ f.versions.length :=
  exists_number_iff.1 ⟨v, hv, rfl⟩

theorem latest_mem (f : Family) : f.latest ∈ f.versions := List.getLast_mem f.nonempty

theorem one_le_latest (f : Family) : 1 ≤ f.latest.number := (number_bounds (latest_mem f)).1

theorem latest_number (f : Family) : f.latest.number = f.versions.length := by
  have hlast : (f.versions.map (·.number)).getLast? = some f.latest.number := by
    rw [List.getLast?_map, List.getLast?_eq_some_getLast f.nonempty]
    rfl
  have hpos : f.versions.length ≠ 0 := by simpa using f.nonempty
  rw [f.numbered, List.getLast?_range', if_neg hpos] at hlast
  have := Option.some.inj hlast
  omega

theorem number_lt_of_mem_older {v : SchemaVersion} (hv : v ∈ f.older) :
    v.number < f.versions.length := by
  have hmem : v.number ∈ (f.versions.map (·.number)).dropLast := by
    rw [← List.map_dropLast]
    exact List.mem_map_of_mem hv
  obtain ⟨n, hn⟩ : ∃ n, f.versions.length = n + 1 :=
    Nat.exists_eq_add_one.2 (List.length_pos_iff.2 f.nonempty)
  rw [f.numbered, hn, List.range'_1_concat, List.dropLast_concat, List.mem_range'_1] at hmem
  omega

theorem decodeOrder_eq (f : Family) :
    f.decodeOrder = (List.range' 1 f.versions.length).reverse := by
  rw [Family.decodeOrder, f.numbered]

/-- Newer versions come first in the order of decoders. -/
theorem pairwise_decodeOrder (f : Family) : f.decodeOrder.Pairwise (· > ·) := by
  rw [decodeOrder_eq, List.pairwise_reverse]
  exact List.pairwise_lt_range' 1

end SchemaVersioning
