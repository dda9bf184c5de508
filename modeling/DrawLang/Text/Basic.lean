/-
DrawLang/Text/Basic.lean

Program text.  A text is a list of characters, so that every statement about
programs is a statement about lists; the outer layer turns it into a string.

Places in a text are counted in bytes of its UTF-8 form.  A place is a
*boundary* if no character straddles it: exactly there `dropBytes?` and
`takeBytes?` are defined.  Main results: cutting at a boundary loses nothing
(`takeBytes?_append_dropBytes?`), and cutting after a prefix gives back that
prefix and the rest (`takeBytes?_append`, `dropBytes?_append`).  A text is read
back from its UTF-8 form (`ofBytes?_toBytes`), and is cut in one way in front of
the first of some characters (`cut_unique`).
-/

namespace DrawLang

/-- A text is the list of its characters. -/
abbrev Text := List Char

namespace Text

/-- The number of bytes of the UTF-8 form. -/
def bytes : Text → Nat
  | [] => 0
  | c :: t => c.utf8Size + bytes t

@[simp] theorem bytes_nil : bytes [] = 0 := rfl

@[simp] theorem bytes_cons (c : Char) (t : Text) : bytes (c :: t) = c.utf8Size + bytes t := rfl

@[simp] theorem bytes_append (s t : Text) : bytes (s ++ t) = bytes s + bytes t := by
  induction s with
  | nil => simp
  | cons c s ih => simp [ih, Nat.add_assoc]

/-- The UTF-8 form. -/
def toBytes (t : Text) : ByteArray := (String.ofList t).toUTF8

/-- The text of a UTF-8 form; `none` if the bytes are none. -/
def ofBytes? (content : ByteArray) : Option Text :=
  (String.fromUTF8? content).map String.toList

theorem ofBytes?_toBytes (t : Text) : ofBytes? t.toBytes = some t := by
  have whole : String.fromUTF8? (String.ofList t).toUTF8 = some (String.ofList t) :=
    dif_pos (String.ofList t).isValidUTF8
  simp [ofBytes?, toBytes, whole, -String.toUTF8_eq_toByteArray]

/-- Is the first text not behind the second in the order of their characters? -/
def precedes : Text → Text → Bool
  | [], _ => true
  | _ :: _, [] => false
  | c :: s, d :: t => c.toNat < d.toNat || (c = d && precedes s t)

/-! ### Cutting at a byte offset -/

/-- What follows the first `n` bytes; `none` if `n` is no boundary of the text. -/
def dropBytes? : Nat → Text → Option Text
  | 0, t => some t
  | _ + 1, [] => none
  | n + 1, c :: t => if c.utf8Size ≤ n + 1 then dropBytes? (n + 1 - c.utf8Size) t else none

/-- The first `n` bytes; `none` if `n` is no boundary of the text. -/
def takeBytes? : Nat → Text → Option Text
  | 0, _ => some []
  | _ + 1, [] => none
  | n + 1, c :: t =>
    if c.utf8Size ≤ n + 1 then (takeBytes? (n + 1 - c.utf8Size) t).map (c :: ·) else none

/-- The part between two offsets, empty unless both are boundaries in order. -/
def slice (t : Text) (start stop : Nat) : Text :=
  if start ≤ stop then ((dropBytes? start t).bind (takeBytes? (stop - start))).getD [] else []

theorem takeBytes?_append_dropBytes? {n : Nat} {s t : Text} (h : takeBytes? n t = some s) :
    ∃ r, dropBytes? n t = some r ∧ t = s ++ r := by
  fun_induction takeBytes? n t generalizing s with
  | case1 t => exact ⟨t, by simp [dropBytes?], by simp_all⟩
  | case2 => simp at h
  | case3 n c t hc ih =>
    obtain ⟨u, hu, rfl⟩ := Option.map_eq_some_iff.1 h
    obtain ⟨r, hr, rfl⟩ := ih hu
    exact ⟨r, by simp [dropBytes?, hc, hr], rfl⟩
  | case4 => simp at h

theorem takeBytes?_append (s t : Text) : takeBytes? (bytes s) (s ++ t) = some s := by
  induction s with
  | nil => simp [takeBytes?]
  | cons c s ih =>
    have hc := c.utf8Size_pos
    obtain ⟨k, hk⟩ : ∃ k, c.utf8Size + bytes s = k + 1 := ⟨c.utf8Size + bytes s - 1, by omega⟩
    have hle : c.utf8Size ≤ k + 1 := by omega
    have hsub : k + 1 - c.utf8Size = bytes s := by omega
    simp [hk, takeBytes?, hle, hsub, ih]

theorem dropBytes?_append (s t : Text) : dropBytes? (bytes s) (s ++ t) = some t := by
  obtain ⟨r, hr, h⟩ := takeBytes?_append_dropBytes? (takeBytes?_append s t)
  rw [hr, List.append_cancel_left h]

/-- Cutting out a middle part gives that part. -/
theorem slice_append (s t u : Text) :
    slice (s ++ t ++ u) (bytes s) (bytes s + bytes t) = t := by
  simp only [slice, Nat.le_add_right, if_true, List.append_assoc, dropBytes?_append,
    Option.bind_some, Nat.add_sub_cancel_left, takeBytes?_append, Option.getD_some]

/-! ### Cutting in front of a character -/

/-- In front of the first of some characters a text is cut in one way. -/
theorem cut_unique {marks t u r r' : Text} (ht : ∀ c ∈ t, c ∉ marks) (hu : ∀ c ∈ u, c ∉ marks)
    (hr : ∀ c ∈ r.head?, c ∈ marks) (hr' : ∀ c ∈ r'.head?, c ∈ marks) (h : t ++ r = u ++ r') :
    t = u ∧ r = r' := by
  have hnil {r : Text} (hr : ∀ c ∈ r.head?, c ∈ marks) : r.takeWhile (· ∉ marks) = [] := by
    cases r with
    | nil => rfl
    | cons c r => exact List.takeWhile_cons_of_neg (by simpa using hr c rfl)
  have htake := congrArg (List.takeWhile (· ∉ marks)) h
  rw [List.takeWhile_append_of_pos (by simpa using ht),
    List.takeWhile_append_of_pos (by simpa using hu), hnil hr, hnil hr', List.append_nil,
    List.append_nil] at htake
  subst htake
  exact ⟨rfl, List.append_cancel_left h⟩

end Text

end DrawLang
