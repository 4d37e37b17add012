/-
# How deep patterns match

A pattern without `**` whose classes match no slash matches only paths with at most as many
slashes as are written in it (`length_le_of_isMatch`), for

| | slashes |
| --- | --- |
| a piece takes off a path | at most those written in the piece (`exists_of_mem_left`) |
| the pieces of a pattern hold | at most those of its text (`slashesOf_parse_le`) |

A class can match a slash that is not written: `[!a]` and `[+-9]` do.
-/

import ReleaseLint.Proofs.Glob.Suffix
import ReleaseLint.Proofs.Text.Parts

namespace ReleaseLint
namespace Glob

variable {p : Piece} {ps qs : List Piece} {branches : List (List Piece)} {s t : Bytes}
variable {q : Piece → Bool}

mutual

/-- Whether a piece, or one in its alternatives, has a property. -/
def Piece.any (q : Piece → Bool) : Piece → Bool
  | .choice branches => anyOfBranches q branches
  | p => q p

/-- Whether some piece of a list, or one in its alternatives, has a property. -/
def anyOf (q : Piece → Bool) : List Piece → Bool
  | [] => false
  | p :: r => p.any q || anyOf q r

/-- Whether some piece of several lists, or one in its alternatives, has a property. -/
def anyOfBranches (q : Piece → Bool) : List (List Piece) → Bool
  | [] => false
  | b :: r => anyOf q b || anyOfBranches q r

end

/-- Whether a piece is a `**` that spans directories. -/
def Piece.spans : Piece → Bool
  | .leading | .trailing | .between => true
  | _ => false

/-- Whether a piece is a class that matches a slash. -/
def Piece.isSlashClass : Piece → Bool
  | .oneOf negated ranges => inClass negated ranges slash
  | _ => false

mutual

/-- How many slashes are written in a piece. -/
def Piece.slashes : Piece → Nat
  | .literal c => if c = '/' then 1 else 0
  | .choice branches => slashesOfBranches branches
  | _ => 0

/-- How many slashes are written in the pieces of a list. -/
def slashesOf : List Piece → Nat
  | [] => 0
  | p :: r => p.slashes + slashesOf r

/-- How many slashes are written in the pieces of several lists. -/
def slashesOfBranches : List (List Piece) → Nat
  | [] => 0
  | b :: r => slashesOf b + slashesOfBranches r

end

theorem anyOf_eq_any : anyOf q ps = ps.any (·.any q) := by
  induction ps with
  | nil => rfl
  | cons p r ih => rw [anyOf, ih, List.any_cons]

theorem anyOfBranches_eq_flatten : anyOfBranches q branches = anyOf q branches.flatten := by
  induction branches with
  | nil => rfl
  | cons b r ih =>
    rw [anyOfBranches, ih, List.flatten_cons, anyOf_eq_any, anyOf_eq_any, anyOf_eq_any,
      List.any_append]

theorem slashesOf_append : slashesOf (ps ++ qs) = slashesOf ps + slashesOf qs := by
  induction ps with
  | nil => rw [List.nil_append, slashesOf, Nat.zero_add]
  | cons p r ih => rw [List.cons_append, slashesOf, ih, slashesOf, Nat.add_assoc]

theorem slashesOf_perm (h : ps.Perm qs) : slashesOf ps = slashesOf qs := by
  induction h with
  | nil => rfl
  | cons p _ ih => rw [slashesOf, slashesOf, ih]
  | swap p p' r => rw [slashesOf, slashesOf, slashesOf, slashesOf, Nat.add_left_comm]
  | trans _ _ ih ih' => rw [ih, ih']

theorem slashesOfBranches_eq_flatten : slashesOfBranches branches = slashesOf branches.flatten := by
  induction branches with
  | nil => rfl
  | cons b r ih => rw [slashesOfBranches, ih, List.flatten_cons, slashesOf_append]

/-! ### What pieces take off a path -/

theorem count_encode (cs : List Char) : (encode cs).count slash = cs.count '/' := by
  have hone (c : Char) : (String.utf8EncodeChar c).count slash = if c = '/' then 1 else 0 := by
    split_ifs with hc
    · rw [hc]
      rfl
    · rw [List.count_eq_zero]
      intro hmem
      have hencode : slash ∈ encode [c] := by
        rwa [encode_cons, encode_nil, List.append_nil]
      have hslash : slash = UInt8.ofNat '/'.toNat := rfl
      rw [hslash, mem_encode (by decide), List.mem_singleton] at hencode
      exact hc hencode.symm
  induction cs with
  | nil => rfl
  | cons c cs ih =>
    rw [encode_cons, List.count_append, ih, hone, List.count_cons, Nat.add_comm]
    simp only [beq_iff_eq]

/-- Whether a path is cut in front of `t` by no more than `n` slashes. -/
def IsCut (n : Nat) (s t : Bytes) : Prop :=
  ∃ v, s = v ++ t ∧ v.count slash ≤ n

theorem isCut_self : IsCut 0 s s :=
  ⟨[], rfl, Nat.le_refl 0⟩

theorem IsCut.trans {u : Bytes} {n m : Nat} (h : IsCut n s t) (h' : IsCut m t u) :
    IsCut (n + m) s u := by
  obtain ⟨v, rfl, hv⟩ := h
  obtain ⟨v', rfl, hv'⟩ := h'
  refine ⟨v ++ v', (List.append_assoc v v' u).symm, ?_⟩
  rw [List.count_append]
  exact Nat.add_le_add hv hv'

theorem IsCut.mono {n m : Nat} (h : IsCut n s t) (hle : n ≤ m) : IsCut m s t := by
  obtain ⟨v, hs, hv⟩ := h
  exact ⟨v, hs, Nat.le_trans hv hle⟩

theorem isCut_byte {r : UInt8 → Bool} (hr : r slash = false) (h : t ∈ afterByte r s) :
    IsCut 0 s t := by
  obtain ⟨b, hb, rfl⟩ := mem_afterByte.1 h
  refine ⟨[b], rfl, Nat.le_of_eq (List.count_eq_zero.2 fun hmem => ?_)⟩
  rw [← List.mem_singleton.1 hmem, hr] at hb
  cases hb

mutual

/-- **A piece takes off at most the slashes that are written in it.** -/
theorem isCut_of_mem_left : ∀ {p : Piece} {s t : Bytes}, p.any Piece.spans = false →
    p.any Piece.isSlashClass = false → t ∈ p.left s → IsCut p.slashes s t
  | .literal c, s, t, _, _, h => by
    refine ⟨_, mem_left_literal.1 h, ?_⟩
    have hcount := count_encode [c]
    rw [encode_cons, encode_nil, List.append_nil, ← bytesOfChar_eq] at hcount
    rw [hcount, List.count_singleton, Piece.slashes]
    simp
  | .one, s, t, _, _, h => isCut_byte (r := (· != slash)) (by simp) (by rwa [Piece.left] at h)
  | .run, s, t, _, _, h => by
    obtain ⟨v, hv, rfl⟩ := mem_left_run.1 h
    exact ⟨v, rfl, Nat.le_of_eq (List.count_eq_zero.2 hv)⟩
  | .leading, s, t, hspans, _, _ => by cases hspans
  | .trailing, s, t, hspans, _, _ => by cases hspans
  | .between, s, t, hspans, _, _ => by cases hspans
  | .oneOf negated ranges, s, t, _, hclass, h =>
    isCut_byte (show inClass negated ranges slash = false from hclass) (by rwa [Piece.left] at h)
  | .choice branches, s, t, hspans, hclass, h => by
    rw [Piece.left] at h
    rw [Piece.slashes]
    exact isCut_of_mem_leftOfBranches hspans hclass h

/-- Pieces take off at most the slashes that are written in them. -/
theorem isCut_of_mem_leftOfAll : ∀ {ps : List Piece} {s t : Bytes}, anyOf Piece.spans ps = false →
    anyOf Piece.isSlashClass ps = false → t ∈ leftOfAll [s] ps → IsCut (slashesOf ps) s t
  | [], s, t, _, _, h => (mem_leftOfAll_nil.1 h) ▸ isCut_self
  | p :: r, s, t, hspans, hclass, h => by
    rw [anyOf, Bool.or_eq_false_iff] at hspans hclass
    obtain ⟨u, hu, ht⟩ := mem_leftOfAll_cons.1 h
    exact (isCut_of_mem_left hspans.1 hclass.1 hu).trans
      (isCut_of_mem_leftOfAll hspans.2 hclass.2 ht)

/-- Alternatives take off at most the slashes that are written in them. -/
theorem isCut_of_mem_leftOfBranches : ∀ {branches : List (List Piece)} {s t : Bytes},
    anyOfBranches Piece.spans branches = false →
    anyOfBranches Piece.isSlashClass branches = false → t ∈ leftOfBranches s branches →
    IsCut (slashesOfBranches branches) s t
  | [], s, t, _, _, h => by
    rw [leftOfBranches] at h
    exact absurd h List.not_mem_nil
  | b :: r, s, t, hspans, hclass, h => by
    rw [anyOfBranches, Bool.or_eq_false_iff] at hspans hclass
    rw [leftOfBranches, List.mem_append] at h
    rw [slashesOfBranches]
    rcases h with h | h
    · exact (isCut_of_mem_leftOfAll hspans.1 hclass.1 h).mono (Nat.le_add_right _ _)
    · exact (isCut_of_mem_leftOfBranches hspans.2 hclass.2 h).mono (Nat.le_add_left _ _)

end

/-! ### What the pieces of a pattern hold -/

/-- Whether pieces span no directories and hold at most `n` slashes. -/
structure AreWithin (n : Nat) (ps : List Piece) : Prop where
  narrow : anyOf Piece.spans ps = false
  slashes : slashesOf ps ≤ n

variable {n m : Nat}

theorem AreWithin.cons (h : AreWithin n ps) (hp : p.any Piece.spans = false) :
    AreWithin (p.slashes + n) (p :: ps) := by
  refine ⟨?_, ?_⟩
  · rw [anyOf, hp, h.narrow]
    rfl
  · rw [slashesOf]
    exact Nat.add_le_add_left h.slashes _

theorem AreWithin.mono (h : AreWithin n ps) (hle : n ≤ m) : AreWithin m ps :=
  ⟨h.narrow, Nat.le_trans h.slashes hle⟩

theorem AreWithin.perm (h : AreWithin n ps) (hperm : qs.Perm ps) : AreWithin n qs := by
  refine ⟨?_, ?_⟩
  · rw [anyOf_eq_any, hperm.any_eq, ← anyOf_eq_any]
    exact h.narrow
  · rw [slashesOf_perm hperm]
    exact h.slashes

theorem AreWithin.left (h : AreWithin n (ps ++ qs)) : AreWithin n ps := by
  obtain ⟨hnarrow, hslashes⟩ := h
  rw [anyOf_eq_any, List.any_append, Bool.or_eq_false_iff, ← anyOf_eq_any] at hnarrow
  rw [slashesOf_append] at hslashes
  exact ⟨hnarrow.1, Nat.le_of_add_right_le hslashes⟩

/-- Alternatives hold what their pieces do. -/
theorem AreWithin.choice (h : AreWithin n (branches.flatten ++ ps)) :
    AreWithin n (.choice branches :: ps) := by
  refine ⟨?_, ?_⟩
  · rw [anyOf, Piece.any, anyOfBranches_eq_flatten, anyOf_eq_any, anyOf_eq_any, ← List.any_append,
      ← anyOf_eq_any]
    exact h.narrow
  · have hsum := h.slashes
    rw [slashesOf_append] at hsum
    rwa [slashesOf, Piece.slashes, slashesOfBranches_eq_flatten]

namespace Draft

variable {d d' : Draft}

/-- The pieces that are read, in no order. -/
def pieces (d : Draft) : List Piece :=
  (d.level :: d.outer).flatMap fun level => level.current ++ level.done.flatten

theorem pieces_push (d : Draft) (p : Piece) : (d.push p).pieces = p :: d.pieces :=
  rfl

theorem pieces_openChoice (d : Draft) : d.openChoice.pieces = d.pieces :=
  rfl

theorem areWithin_comma (h : AreWithin n d.pieces) : AreWithin n d.comma.pieces := by
  unfold comma
  split_ifs
  · rw [pieces_push]
    exact (h.cons (p := .literal ',') rfl).mono (Nat.le_of_eq (Nat.zero_add n))
  · refine h.perm ?_
    unfold pieces
    rw [List.flatMap_cons, List.flatMap_cons, List.flatten_cons, List.nil_append]
    exact ((List.reverse_perm _).append_right _).append_right _

theorem areWithin_closeChoice (h : AreWithin n d.pieces) (hd : d.closeChoice = .ok d') :
    AreWithin n d'.pieces := by
  unfold closeChoice at hd
  split at hd
  · cases hd
  · rename_i level outer houter
    cases hd
    rw [pieces_push]
    refine AreWithin.choice (h.perm ?_)
    unfold pieces
    rw [houter, List.flatMap_cons (x := d.level)]
    refine List.Perm.append_right _ ((List.reverse_perm _).flatten.trans ?_)
    rw [List.flatten_cons]
    exact (List.reverse_perm _).append_right _

end Draft

namespace Reading

variable {x x' : Reading} {c : Char} {r r' : List Char} {dialect : Dialect}

/-- **A step adds at most the slashes that it reads,** unless it reads two stars. -/
theorem exists_areWithin_next (hstars : ¬['*', '*'] <+: c :: r) (h : AreWithin n x.draft.pieces)
    (hx : x.next dialect c r = .ok (x', r')) :
    r' <:+ r ∧ ∃ m, AreWithin m x'.draft.pieces ∧ m + r'.count '/' ≤ n + (c :: r).count '/' := by
  have hsame : n + r.count '/' ≤ n + (c :: r).count '/' :=
    Nat.add_le_add_left (List.count_le_count_cons) n
  rcases next_cases hx with ⟨hsuffix, p, hp, hdraft⟩ | ⟨s, hs, -, -⟩ | ⟨rfl, hdraft⟩
  · have hnarrow : p.any Piece.spans = false := by
      rcases hp with rfl | rfl | ⟨negated, ranges, rfl⟩ | ⟨e, rfl, -⟩ <;> rfl
    have hslashes : p.slashes + r'.count '/' ≤ (c :: r).count '/' := by
      have hrest : r'.count '/' ≤ (c :: r).count '/' :=
        ((hsuffix.trans (List.suffix_cons c r)).sublist).count_le '/'
      rcases hp with rfl | rfl | ⟨negated, ranges, rfl⟩ | ⟨e, rfl, hread⟩
      · exact (Nat.zero_add (r'.count '/')).symm ▸ hrest
      · exact (Nat.zero_add (r'.count '/')).symm ▸ hrest
      · exact (Nat.zero_add (r'.count '/')).symm ▸ hrest
      · have hcount := hread.sublist.count_le '/'
        rw [List.count_cons] at hcount
        rw [Piece.slashes, Nat.add_comm]
        simpa using hcount
    refine ⟨hsuffix, p.slashes + n, ?_, by omega⟩
    rw [hdraft, Draft.pieces_push]
    exact h.cons hnarrow
  · exact absurd ⟨s, hs.symm⟩ hstars
  · refine ⟨List.suffix_refl r', n, ?_, hsame⟩
    rcases hdraft with hdraft | hdraft | hdraft
    · rw [hdraft, Draft.pieces_openChoice]
      exact h
    · rw [hdraft]
      exact Draft.areWithin_comma h
    · exact Draft.areWithin_closeChoice h hdraft

/-- A reading without two stars adds at most the slashes that it reads. -/
theorem areWithin_finish {d : Draft} {s : List Char} (hstars : ¬['*', '*'] <:+: s)
    (h : AreWithin n x.draft.pieces) (hx : x.finish dialect s = .ok d) :
    AreWithin (n + s.count '/') d.pieces := by
  induction hlen : s.length using Nat.strongRecOn generalizing s x n with
  | ind k ih =>
    cases s with
    | nil =>
      cases hx
      exact h
    | cons c r =>
      obtain ⟨x', r', hnext, hfinish⟩ := exists_next hx
      obtain ⟨hsuffix, m, hm, hle⟩ :=
        exists_areWithin_next (fun hpre => hstars hpre.isInfix) h hnext
      have hlt : r'.length < k := by
        rw [← hlen, List.length_cons]
        exact Nat.lt_succ_of_le hsuffix.length_le
      have hstars' : ¬['*', '*'] <:+: r' := fun hin =>
        hstars (hin.trans (hsuffix.isInfix.trans (List.suffix_cons c r).isInfix))
      exact (ih r'.length hlt hstars' hm hfinish rfl).mono hle

end Reading

/-- The pieces of a pattern without two stars hold at most its slashes. -/
theorem areWithin_parse {s : List Char} (hstars : ¬['*', '*'] <:+: s)
    (h : parse .search (String.ofList s) = .ok ps) : AreWithin (s.count '/') ps := by
  obtain ⟨d, hd, -, rfl⟩ := (parse_eq_ok s).1 h
  have hempty : AreWithin 0 Reading.start.draft.pieces := ⟨rfl, Nat.le_refl 0⟩
  have hall := Reading.areWithin_finish hstars hempty hd
  rw [Nat.zero_add] at hall
  exact hall.left.left.perm (List.reverse_perm _)

/-! ### The depth of a match -/

variable {names tail : Names}

/-- **A match is no deeper than the pattern,** without `**` and classes that match a slash. -/
theorem length_le_of_isMatch (hnames : AreNames names) (htail : AreNames tail) (hne : tail ≠ [])
    (hstars : ∀ s ∈ tail, Text.contains s "**" = false)
    (hps : parse .search ("/".intercalate tail) = .ok ps)
    (hclass : anyOf Piece.isSlashClass ps = false)
    (hmatch : isMatch ps ("/".intercalate names) = true) : names.length ≤ tail.length := by
  by_cases hnil : names = []
  · rw [hnil]
    exact Nat.zero_le _
  have hinfix : ¬['*', '*'] <:+: ("/".intercalate tail).toList :=
    not_infix_joined (by decide) (by decide) fun s hs hin => by
      have hcontains := hstars s hs
      rw [Text.contains, Bool.eq_false_iff] at hcontains
      exact hcontains (Text.occursIn_iff.2 hin)
  rw [← String.ofList_toList (s := "/".intercalate tail)] at hps
  obtain ⟨hnarrow, hslashes⟩ := areWithin_parse hinfix hps
  have hlead : ps ≠ [.leading] := by
    rintro rfl
    cases hnarrow
  obtain ⟨v, hv, hcount⟩ :=
    isCut_of_mem_leftOfAll hnarrow hclass ((isMatch_iff hlead).1 hmatch)
  rw [List.append_nil] at hv
  rw [← hv, bytesOf_eq_encode, count_encode] at hcount
  have hdeep := count_joined hnames hnil
  have hlong := count_joined htail hne
  omega

end Glob
end ReleaseLint
