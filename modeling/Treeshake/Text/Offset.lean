namespace Treeshake.Text

def byteLength : List Char → Nat
  | [] => 0
  | c :: cs => c.utf8Size + byteLength cs

-- Cuts a text after so many bytes. There is no cut inside a character or past the end.
def cut? : List Char → Nat → Option (List Char × List Char)
  | cs, 0 => some ([], cs)
  | [], _ + 1 => none
  | c :: cs, n =>
    if c.utf8Size ≤ n then
      (cut? cs (n - c.utf8Size)).map fun (front, back) => (c :: front, back)
    else none

-- A stretch of a text, from its first byte to the byte after its last.
structure Span where
  start : Nat
  stop : Nat
deriving DecidableEq, Repr, Inhabited

theorem byteLength_cons (c : Char) (cs : List Char) :
    byteLength (c :: cs) = c.utf8Size + byteLength cs := rfl

theorem byteLength_append (front back : List Char) :
    byteLength (front ++ back) = byteLength front + byteLength back := by
  induction front with
  | nil => simp [byteLength]
  | cons c front ih => rw [List.cons_append, byteLength_cons, byteLength_cons, ih, Nat.add_assoc]

theorem eq_append_of_cut? {cs front back : List Char} {n : Nat}
    (h : cut? cs n = some (front, back)) : cs = front ++ back ∧ byteLength front = n := by
  induction cs generalizing n front with
  | nil =>
    cases n with
    | zero => simp_all [cut?, byteLength]
    | succ n => simp [cut?] at h
  | cons c cs ih =>
    cases n with
    | zero => simp_all [cut?, byteLength]
    | succ n =>
      rw [cut?] at h
      · split at h
        · next hle =>
          obtain ⟨⟨f, b⟩, hf, heq⟩ := Option.map_eq_some_iff.1 h
          obtain ⟨rfl, rfl⟩ := Prod.mk.injEq .. ▸ heq
          obtain ⟨rfl, hlen⟩ := ih hf
          refine ⟨rfl, ?_⟩
          rw [byteLength_cons, hlen]
          omega
        · simp at h
      · omega

end Treeshake.Text
