/-
# Where cached binaries stand

    root / tool / version / os-arch / binary

The path of a binary goes along the four names of its `key` from the root of the cache,
its directory along the first three (`parent?_binaryPath`), and no binary has the name of
a temporary file (`not_isTemporaryName_binaryName`).  A tool, a version and a supported
platform are read back from the four names (`key_injective`).
-/

import ReleaseLint.Proofs.Cache.Process
import ReleaseLint.Proofs.Tree.Lookup
import ReleaseLint.Proofs.Version.Characters

namespace ReleaseLint

open Segment

/-- Whether the names of a platform hold no slash. -/
def Platform.IsPlain (p : Platform) : Prop :=
  '/' ∉ p.os.toList ∧ '/' ∉ p.arch.toList

theorem Platform.isName_text {p : Platform} (h : p.IsPlain) : IsName p.text := by
  have htext : p.text.toList = p.os.toList ++ '-' :: p.arch.toList := by
    simp [Platform.text]
  have hmem : '-' ∈ p.text.toList := by simp [htext]
  rw [isName_iff, htext]
  refine ⟨by simp [h.1, h.2], ?_, ?_, ?_⟩
  all_goals
    intro he
    rw [he] at hmem
    exact absurd hmem (by decide)

theorem Platform.isSupported_iff {p : Platform} : p.isSupported = true ↔
    (p.os = "linux" ∨ p.os = "darwin" ∨ p.os = "windows") ∧
      (p.arch = "amd64" ∨ p.arch = "arm64") := by
  simp [Platform.isSupported]

theorem Platform.isPlain_of_isSupported {p : Platform} (h : p.isSupported = true) : p.IsPlain := by
  obtain ⟨os, arch⟩ := p
  obtain ⟨rfl | rfl | rfl, rfl | rfl⟩ := isSupported_iff.1 h <;> constructor <;> decide

/-- The name of a supported platform is that of no other one. -/
theorem Platform.eq_of_text_eq {p q : Platform} (hq : q.isSupported = true)
    (h : p.text = q.text) : p = q := by
  obtain ⟨os, arch⟩ := p
  obtain ⟨os', arch'⟩ := q
  have hsplit : os.toList.splitOn '-' ++ arch.toList.splitOn '-' =
      [os'.toList, arch'.toList] := by
    have := congrArg (fun s : String => s.toList.splitOn '-') h
    simp only [Platform.text, String.toList_append, show "-".toList = ['-'] from rfl,
      List.append_assoc, List.singleton_append, List.splitOn_append_cons_self] at this
    rw [this]
    obtain ⟨rfl | rfl | rfl, rfl | rfl⟩ := isSupported_iff.1 hq <;> decide
  -- each half splits into at least one piece, so that both are whole
  obtain ⟨a, r, har⟩ := List.exists_cons_of_ne_nil (List.splitOn_ne_nil '-' os.toList)
  obtain ⟨b, r', hbr⟩ := List.exists_cons_of_ne_nil (List.splitOn_ne_nil '-' arch.toList)
  rw [har, hbr] at hsplit
  have hlen := congrArg List.length hsplit
  simp only [List.cons_append, List.length_cons, List.length_append, List.length_nil] at hlen
  obtain rfl : r = [] := List.eq_nil_of_length_eq_zero (by omega)
  obtain rfl : r' = [] := List.eq_nil_of_length_eq_zero (by omega)
  simp only [List.cons_append, List.nil_append, List.cons.injEq, and_true] at hsplit
  have hos : List.intercalate ['-'] (os.toList.splitOn '-') = os.toList :=
    List.intercalate_splitOn '-'
  have harch : List.intercalate ['-'] (arch.toList.splitOn '-') = arch.toList :=
    List.intercalate_splitOn '-'
  rw [har, hsplit.1, List.intercalate_singleton] at hos
  rw [hbr, hsplit.2, List.intercalate_singleton] at harch
  rw [String.toList_inj.1 hos, String.toList_inj.1 harch]

namespace Tool

theorem isName_name (t : Tool) : IsName t.name := by
  rw [isName_iff]
  cases t <;> decide

theorem isName_binaryName (t : Tool) (p : Platform) : IsName (t.binaryName p) := by
  unfold binaryName Platform.suffix
  rw [isName_iff]
  cases t <;> split_ifs <;> decide

theorem fits_binaryName (t : Tool) (p : Platform) : Tree.Fits (t.binaryName p) := by
  unfold binaryName Platform.suffix Tree.Fits
  cases t <;> split_ifs <;> decide

/-- **No binary has the name of a temporary file.** -/
theorem not_isTemporaryName_binaryName (t : Tool) (p : Platform) :
    ¬Process.IsTemporaryName (t.binaryName p) := by
  rintro ⟨h, -⟩
  revert h
  unfold binaryName Platform.suffix
  cases t <;> split_ifs <;> decide

theorem name_injective {t u : Tool} (h : t.name = u.name) : t = u := by
  have := congrArg ofName? h
  rwa [ofName?_name, ofName?_name, Option.some.injEq] at this

namespace Cache

variable {t u : Tool} {v v' : String} {p q : Platform}

/-- The names of the directory of a binary below the root of the cache. -/
def home (t : Tool) (version : String) (p : Platform) : Names :=
  [t.name, version, p.text]

/-- The names of a binary below the root of the cache. -/
def key (t : Tool) (version : String) (p : Platform) : Names :=
  home t version p ++ [t.binaryName p]

/-- **A tool, a version and a supported platform are read back from the names of a binary.** -/
theorem key_injective (hq : q.isSupported = true) (h : key t v p = key u v' q) :
    t = u ∧ v = v' ∧ p = q := by
  obtain ⟨ht, hv, hp, -⟩ : t.name = u.name ∧ v = v' ∧ p.text = q.text ∧ _ := by
    simpa [key, home] using h
  exact ⟨name_injective ht, hv, Platform.eq_of_text_eq hq hp⟩

theorem binaryPath_eq (root : Path) (t : Tool) (v : String) (p : Platform) :
    binaryPath root t v p = root.along ((key t v p).map .name) := rfl

theorem isStep_of_mem_home (hv : IsName v) (hp : p.IsPlain) :
    ∀ x ∈ (home t v p).map Segment.name, x.IsStep := by
  intro x hx
  simp only [home, List.map_cons, List.map_nil, List.mem_cons, List.not_mem_nil, or_false] at hx
  rcases hx with rfl | rfl | rfl
  · exact t.isName_name
  · exact hv
  · exact Platform.isName_text hp

theorem isStep_of_mem_key (hv : IsName v) (hp : p.IsPlain) :
    ∀ x ∈ (key t v p).map Segment.name, x.IsStep := by
  intro x hx
  rw [key, List.map_append, List.mem_append] at hx
  rcases hx with hx | hx
  · exact isStep_of_mem_home hv hp x hx
  · rw [List.map_singleton, List.mem_singleton] at hx
    rw [hx]
    exact t.isName_binaryName p

/-- **The parent of a binary is its directory.** -/
theorem parent?_binaryPath (root : Path) (t : Tool) (hv : IsName v) (hp : p.IsPlain) :
    (binaryPath root t v p).parent? = some (root.along ((home t v p).map .name)) := by
  rw [binaryPath_eq, key, List.map_append]
  exact Path.parent?_along root (isStep_of_mem_home hv hp) (by simp [home])
    (t.isName_binaryName p)

/-- Where the directory of a binary is. -/
def directory (root : Path) (t : Tool) (v : String) (p : Platform) : Path :=
  (binaryPath root t v p).parent?.getD root

theorem directory_eq (root : Path) (t : Tool) (hv : IsName v) (hp : p.IsPlain) :
    directory root t v p = root.along ((home t v p).map .name) := by
  unfold directory
  rw [parent?_binaryPath root t hv hp]
  rfl

end Cache
end Tool
end ReleaseLint
