import VcsClient.Lib.Text

/-!
# Hosts and ports

`net.SplitHostPort` and `net.JoinHostPort`: the port is what follows the last colon, and
a host with colons stands in brackets. What is joined splits again when the host has no
bracket. Addresses of both families as text.
-/

namespace VcsClient.Lib

variable {sep : Char} {a b host port s : List Char}

/-- The text before the last separator, and after it. -/
def cutLast (sep : Char) : List Char → Option (List Char × List Char)
  | [] => none
  | c :: s =>
    match cutLast sep s with
    | some (before, after) => some (c :: before, after)
    | none => if c = sep then some ([], s) else none

theorem cutLast_eq_none (h : sep ∉ s) : cutLast sep s = none := by
  induction s with
  | nil => rfl
  | cons c s ih =>
    rw [List.mem_cons, not_or] at h
    rw [cutLast, ih h.2]
    exact if_neg (Ne.symm h.1)

theorem cutLast_append (h : sep ∉ b) : cutLast sep (a ++ sep :: b) = some (a, b) := by
  induction a with
  | nil =>
    rw [List.nil_append, cutLast, cutLast_eq_none h]
    exact if_pos rfl
  | cons c a ih => rw [List.cons_append, cutLast, ih]

theorem exists_append_last (h : sep ∈ s) : ∃ a b, s = a ++ sep :: b ∧ sep ∉ b := by
  induction s with
  | nil => cases h
  | cons c s ih =>
    by_cases hs : sep ∈ s
    · obtain ⟨a, b, rfl, hb⟩ := ih hs
      exact ⟨c :: a, b, rfl, hb⟩
    · obtain rfl | hm := List.mem_cons.1 h
      · exact ⟨[], s, rfl, hs⟩
      · exact absurd hm hs

/-- What `SplitHostPort` finds wrong. -/
inductive SplitError where
  | missingPort
  | tooManyColons
  | missingBracket
  | unexpectedBracket (c : Char)
  deriving DecidableEq

/-- `net.SplitHostPort`: the host and the port. -/
def splitHostPort (hostport : List Char) : Except SplitError (List Char × List Char) :=
  match cutLast ':' hostport with
  | none => .error .missingPort
  | some (before, port) =>
    match hostport with
    | '[' :: rest =>
      match cut ']' rest with
      | none => .error .missingBracket
      | some (host, behind) =>
        -- the bracket is expected just before the last colon
        if behind = ':' :: port then
          if '[' ∈ rest then .error (.unexpectedBracket '[')
          else if ']' ∈ behind then .error (.unexpectedBracket ']')
          else .ok (host, port)
        else if behind.head? = some ':' then .error .tooManyColons
        else .error .missingPort
    | _ =>
      if ':' ∈ before then .error .tooManyColons
      else if '[' ∈ hostport then .error (.unexpectedBracket '[')
      else if ']' ∈ hostport then .error (.unexpectedBracket ']')
      else .ok (before, port)

/-- `net.JoinHostPort`. -/
def joinHostPort (host port : List Char) : List Char :=
  if ':' ∈ host then '[' :: host ++ ']' :: ':' :: port else host ++ ':' :: port

/-- Neither a colon nor a bracket. -/
def Plain (s : List Char) : Prop := ':' ∉ s ∧ '[' ∉ s ∧ ']' ∉ s

instance : Decidable (Plain s) := inferInstanceAs (Decidable (_ ∧ _))

theorem splitHostPort_open {rest before behind : List Char}
    (hlast : cutLast ':' ('[' :: rest) = some (before, port))
    (hcut : cut ']' rest = some (host, behind)) :
    splitHostPort ('[' :: rest) =
      if behind = ':' :: port then
        if '[' ∈ rest then .error (.unexpectedBracket '[')
        else if ']' ∈ behind then .error (.unexpectedBracket ']')
        else .ok (host, port)
      else if behind.head? = some ':' then .error .tooManyColons
      else .error .missingPort := by
  unfold splitHostPort
  rw [hlast]
  dsimp only
  split
  · next rest' heq =>
    cases heq
    rw [hcut]
  · next hno => exact absurd rfl (hno rest)

theorem splitHostPort_bracketed (hopen : '[' ∉ host) (hclose : ']' ∉ host) (hport : Plain port) :
    splitHostPort ('[' :: host ++ ']' :: ':' :: port) = .ok (host, port) := by
  obtain ⟨hcolon, hport⟩ := hport
  have hlast : cutLast ':' ('[' :: host ++ ']' :: ':' :: port) =
      some ('[' :: host ++ [']'], port) := by
    rw [show '[' :: host ++ ']' :: ':' :: port = ('[' :: host ++ [']']) ++ ':' :: port by simp]
    exact cutLast_append hcolon
  rw [List.cons_append] at hlast ⊢
  rw [splitHostPort_open hlast (cut_append hclose), if_pos rfl, if_neg (by simp [hopen, hport]),
    if_neg (by simp [hport])]

theorem splitHostPort_of_head {before : List Char} (hhead : s.head? ≠ some '[')
    (hlast : cutLast ':' s = some (before, port)) :
    splitHostPort s =
      if ':' ∈ before then .error .tooManyColons
      else if '[' ∈ s then .error (.unexpectedBracket '[')
      else if ']' ∈ s then .error (.unexpectedBracket ']')
      else .ok (before, port) := by
  unfold splitHostPort
  rw [hlast]
  dsimp only
  split
  · exact absurd rfl hhead
  · rfl

theorem head?_ne_of_notMem {c : Char} (h : c ∉ s) : s.head? ≠ some c :=
  fun hhead => h (List.mem_of_head? hhead)

theorem splitHostPort_plain (hhost : Plain host) (hport : Plain port) :
    splitHostPort (host ++ ':' :: port) = .ok (host, port) := by
  obtain ⟨hcolon, hopen, hclose⟩ := hhost
  obtain ⟨hcolon', hopen', hclose'⟩ := hport
  have hopens : '[' ∉ host ++ ':' :: port := by simp [hopen, hopen']
  have hcloses : ']' ∉ host ++ ':' :: port := by simp [hclose, hclose']
  rw [splitHostPort_of_head (head?_ne_of_notMem hopens) (cutLast_append hcolon'),
    if_neg hcolon, if_neg hopens, if_neg hcloses]

/-- **What is joined splits again.** -/
theorem splitHostPort_joinHostPort (hopen : '[' ∉ host) (hclose : ']' ∉ host)
    (hport : Plain port) : splitHostPort (joinHostPort host port) = .ok (host, port) := by
  unfold joinHostPort
  split
  · exact splitHostPort_bracketed hopen hclose hport
  · next hcolon => exact splitHostPort_plain ⟨hcolon, hopen, hclose⟩ hport

theorem splitHostPort_of_notMem (h : ':' ∉ s) : splitHostPort s = .error .missingPort := by
  unfold splitHostPort
  rw [cutLast_eq_none h]

theorem splitHostPort_brackets (hclose : ']' ∉ host) :
    splitHostPort ('[' :: host ++ [']']) = .error .missingPort := by
  by_cases hcolon : ':' ∈ host
  · obtain ⟨a, b, rfl, hb⟩ := exists_append_last hcolon
    have hlast : cutLast ':' ('[' :: (a ++ ':' :: b) ++ [']']) = some ('[' :: a, b ++ [']']) := by
      rw [show '[' :: (a ++ ':' :: b) ++ [']'] = ('[' :: a) ++ ':' :: (b ++ [']']) by simp]
      exact cutLast_append (by simp [hb])
    rw [List.cons_append] at hlast ⊢
    rw [splitHostPort_open hlast (cut_append hclose)]
    rfl
  · exact splitHostPort_of_notMem (by simp [hcolon])

theorem splitHostPort_colons (hhead : (a ++ ':' :: b).head? ≠ some '[') (ha : ':' ∈ a)
    (hb : ':' ∉ b) : splitHostPort (a ++ ':' :: b) = .error .tooManyColons := by
  rw [splitHostPort_of_head hhead (cutLast_append hb), if_pos ha]

/-! ## Addresses -/

/-- An IPv4 address as text: its octets in decimal. -/
def dotted (a b c d : Fin 256) : List Char :=
  Nat.toDigits 10 a ++ '.' :: Nat.toDigits 10 b ++ '.' :: Nat.toDigits 10 c ++
    '.' :: Nat.toDigits 10 d

theorem isDigit_of_mem_dotted {w x y z : Fin 256} {c : Char} (hc : c ∈ dotted w x y z) :
    c.isDigit = true ∨ c = '.' := by
  have hdigit : ∀ n, c ∈ Nat.toDigits 10 n → c.isDigit = true := fun n hn =>
    Nat.isDigit_of_mem_toDigits (by omega) (Nat.le_refl 10) hn
  simp only [dotted, List.mem_append, List.mem_cons] at hc
  obtain ((hc | rfl | hc) | rfl | hc) | rfl | hc := hc
  all_goals first | exact .inr rfl | exact .inl (hdigit _ hc)

def isHexDigit (c : Char) : Bool :=
  c.isDigit || ('a' ≤ c && c ≤ 'f') || ('A' ≤ c && c ≤ 'F')

/-- A group of an IPv6 address. -/
def IsGroup (g : List Char) : Prop := 1 ≤ g.length ∧ g.length ≤ 4 ∧ ∀ c ∈ g, isHexDigit c = true

/-- Groups with colons between, an IPv4 address in the place of the last two if there is
one: the text of `n` groups. -/
def IsGroups (n : ℕ) (text : List Char) : Prop :=
  ∃ gs v4, (∀ g ∈ gs, IsGroup g) ∧
    (v4 = [] ∧ n = gs.length ∨ (∃ a b c d, v4 = [dotted a b c d]) ∧ n = gs.length + 2) ∧
    text = [':'].intercalate (gs ++ v4)

/-- An IPv6 address as text: eight groups, or fewer around a double colon. -/
def IsIPv6 (text : List Char) : Prop :=
  IsGroups 8 text ∨ ∃ m n left right, m + n ≤ 7 ∧ IsGroups m left ∧ IsGroups n right ∧
    text = left ++ ':' :: ':' :: right

/-- A character of an IPv6 address. -/
def isAddressChar (c : Char) : Bool := isHexDigit c || c = ':' || c = '.'

theorem mem_intercalate {c : Char} {gs : List (List Char)} (hc : c ∈ [sep].intercalate gs) :
    c = sep ∨ ∃ g ∈ gs, c ∈ g := by
  induction gs with
  | nil => cases hc
  | cons g gs ih =>
    cases gs with
    | nil =>
      rw [List.intercalate_singleton] at hc
      exact .inr ⟨g, List.mem_cons_self, hc⟩
    | cons g' gs =>
      rw [List.intercalate_cons_cons, List.mem_append, List.mem_append] at hc
      obtain (hc | hc) | hc := hc
      · exact .inr ⟨g, List.mem_cons_self, hc⟩
      · exact .inl (List.mem_singleton.1 hc)
      · obtain hsep | ⟨g'', hg, hc⟩ := ih hc
        · exact .inl hsep
        · exact .inr ⟨g'', List.mem_cons_of_mem _ hg, hc⟩

theorem length_le_count_intercalate (sep : Char) (gs : List (List Char)) :
    gs.length ≤ ([sep].intercalate gs).count sep + 1 := by
  induction gs with
  | nil => simp
  | cons g gs ih =>
    cases gs with
    | nil => simp
    | cons g' gs =>
      have hone : [sep].count sep = 1 := by simp
      rw [List.intercalate_cons_cons, List.count_append, List.count_append, hone,
        List.length_cons]
      omega

theorem isAddressChar_of_mem_groups {n : ℕ} {c : Char} (h : IsGroups n s) (hc : c ∈ s) :
    isAddressChar c = true := by
  obtain ⟨gs, v4, hgs, hv4, rfl⟩ := h
  unfold isAddressChar
  obtain rfl | ⟨g, hg, hcg⟩ := mem_intercalate hc
  · rfl
  · obtain hg | hg := List.mem_append.1 hg
    · rw [(hgs g hg).2.2 c hcg]
      rfl
    · obtain ⟨rfl, -⟩ | ⟨⟨w, x, y, z, rfl⟩, -⟩ := hv4
      · cases hg
      · rw [List.mem_singleton.1 hg] at hcg
        unfold isHexDigit
        obtain hd | rfl := isDigit_of_mem_dotted hcg
        · rw [hd]
          rfl
        · rfl

/-- **An IPv6 address** has two colons or more, and no bracket. -/
theorem IsIPv6.colons (h : IsIPv6 s) : 2 ≤ s.count ':' ∧ '[' ∉ s ∧ ']' ∉ s := by
  have hchar : ∀ c ∈ s, isAddressChar c = true := by
    intro c hc
    obtain h | ⟨m, n, left, right, -, hleft, hright, rfl⟩ := h
    · exact isAddressChar_of_mem_groups h hc
    · simp only [List.mem_append, List.mem_cons] at hc
      obtain hc | rfl | rfl | hc := hc
      · exact isAddressChar_of_mem_groups hleft hc
      · rfl
      · rfl
      · exact isAddressChar_of_mem_groups hright hc
  refine ⟨?_, fun hm => absurd (hchar _ hm) (by decide), fun hm => absurd (hchar _ hm) (by decide)⟩
  obtain ⟨gs, v4, -, hv4, rfl⟩ | ⟨m, n, left, right, -, -, -, rfl⟩ := h
  · have hlen : 7 ≤ (gs ++ v4).length := by
      obtain ⟨rfl, hn⟩ | ⟨⟨w, x, y, z, rfl⟩, hn⟩ := hv4
      · rw [List.append_nil]
        omega
      · rw [List.length_append, List.length_singleton]
        omega
    have := length_le_count_intercalate ':' (gs ++ v4)
    omega
  · rw [List.count_append, List.count_cons_self, List.count_cons_self]
    omega

end VcsClient.Lib
