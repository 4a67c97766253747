import VcsClient.Lib.Terminated
import VcsClient.Lib.Text
import VcsClient.Notify.Store

/-!
# What a fingerprint tells

The stream that is hashed is the fields of an item, each ended by a zero byte, without the
number of its context pairs and of its actions. Two actions are ten fields, as five pairs
are: an item of two actions has the stream of one that shows them as context
(`fingerprint_faithful`). A field that contains the zero byte reads as two.
-/

namespace VcsClient.Notify

open VcsClient.Lib

/-! ## Fields -/

def nul : Char := '\x00'

/-- `write`, for one context pair. -/
def KV.fields (kv : KV) : List String := [kv.key, kv.value]

/-- `write`, for one action. -/
def Action.fields (a : Action) : List String :=
  [a.label, a.icon, a.kind, a.target, formatBool a.primary]

/-- The fields before the context and the actions. -/
def Item.heading (it : Item) : List String :=
  [it.key, it.category, it.severity, it.icon, it.title, it.body]

def Item.details (it : Item) : List String :=
  it.context.flatMap KV.fields ++ it.actions.flatMap Action.fields

def Item.fields (it : Item) : List String := it.heading ++ it.details

/-- The text that the stream is the UTF-8 of. -/
def textOf (fields : List String) : List Char := terminated nul (fields.map String.toList)

theorem utf8_append (cs cs' : List Char) : utf8 (cs ++ cs') = utf8 cs ++ utf8 cs' :=
  List.flatMap_append

theorem utf8_toList (s : String) : s.toUTF8.data.toList = utf8 s.toList := by
  have hencode : s.toByteArray = s.toList.utf8Encode := by
    conv_lhs => rw [← String.ofList_toList (s := s)]
    exact String.toByteArray_ofList
  rw [String.toUTF8_eq_toByteArray, hencode]
  unfold List.utf8Encode utf8
  simp

theorem write_append (ps ps' : List String) : write (ps ++ ps') = write ps ++ write ps' :=
  List.flatMap_append

theorem write_eq (ps : List String) : write ps = utf8 (textOf ps) := by
  induction ps with
  | nil => rfl
  | cons p ps ih =>
    show p.toUTF8.data.toList ++ [0] ++ write ps = _
    unfold textOf
    rw [List.map_cons, terminated_cons, utf8_append, ← utf8_toList, ih, List.append_assoc]
    rfl

theorem write_flatMap {ι : Type*} (l : List ι) (f : ι → List String) :
    (l.flatMap fun x => write (f x)) = write (l.flatMap f) := by
  induction l with
  | nil => rfl
  | cons x l ih => rw [List.flatMap_cons, List.flatMap_cons, write_append, ih]

theorem Item.stream_eq (it : Item) : it.stream = write it.fields := by
  unfold fields details heading
  rw [write_append, write_append, ← write_flatMap, ← write_flatMap, ← List.append_assoc]
  rfl

/-- The stream tells the text of the fields, and nothing more. -/
theorem Item.stream_eq_iff {a b : Item} :
    a.stream = b.stream ↔ textOf a.fields = textOf b.fields := by
  rw [stream_eq, stream_eq, write_eq, write_eq]
  constructor
  · intro h
    have hrunes := congrArg runes h
    rwa [runes_utf8, runes_utf8] at hrunes
  · exact congrArg utf8

/-! ## Items without zero bytes -/

/-- No field has a zero byte. -/
def Item.NulFree (it : Item) : Prop := ∀ f ∈ it.fields, nul ∉ f.toList

theorem Item.fields_inj {a b : Item} (ha : a.NulFree) (hb : b.NulFree)
    (h : a.stream = b.stream) : a.fields = b.fields := by
  have hfree : ∀ it : Item, it.NulFree → ∀ cs ∈ it.fields.map String.toList, nul ∉ cs := by
    intro it hit cs hcs
    obtain ⟨f, hf, rfl⟩ := List.mem_map.1 hcs
    exact hit f hf
  have hmap := terminated_inj (hfree a ha) (hfree b hb) (stream_eq_iff.1 h)
  exact (List.map_injective_iff.2 fun s t hst => String.toList_inj.1 hst) hmap

/-- `formatBool` of some flag. -/
def IsFlag (s : String) : Prop := s = "true" ∨ s = "false"

instance (s : String) : Decidable (IsFlag s) := inferInstanceAs (Decidable (_ ∨ _))

theorem isFlag_formatBool (b : Bool) : IsFlag (formatBool b) := by
  cases b
  · exact .inr rfl
  · exact .inl rfl

theorem IsFlag.eq_formatBool {s : String} (h : IsFlag s) : s = formatBool (s == "true") := by
  obtain rfl | rfl := h <;> rfl

theorem formatBool_inj {a b : Bool} (h : formatBool a = formatBool b) : a = b := by
  cases a <;> cases b
  · rfl
  · exact absurd h (by decide)
  · exact absurd h (by decide)
  · rfl

theorem Action.fields_inj {a b : Action} (h : a.fields = b.fields) : a = b := by
  obtain ⟨label, icon, kind, target, primary⟩ := a
  obtain ⟨label', icon', kind', target', primary'⟩ := b
  simp only [fields, List.cons.injEq, and_true] at h
  obtain ⟨rfl, rfl, rfl, rfl, hflag⟩ := h
  rw [formatBool_inj hflag]

theorem length_context (ctx : List KV) : (ctx.flatMap KV.fields).length = 2 * ctx.length := by
  induction ctx with
  | nil => rfl
  | cons kv ctx ih =>
    rw [List.flatMap_cons, List.length_append, ih, List.length_cons]
    show 2 + _ = _
    omega

theorem length_actions (as : List Action) :
    (as.flatMap Action.fields).length = 5 * as.length := by
  induction as with
  | nil => rfl
  | cons a as ih =>
    rw [List.flatMap_cons, List.length_append, ih, List.length_cons]
    show 5 + _ = _
    omega

theorem actions_inj {as bs : List Action}
    (h : as.flatMap Action.fields = bs.flatMap Action.fields) : as = bs := by
  induction as generalizing bs with
  | nil =>
    have hlen := congrArg List.length h
    rw [length_actions, length_actions] at hlen
    exact (List.eq_nil_of_length_eq_zero (by rw [List.length_nil] at hlen; omega)).symm
  | cons a as ih =>
    cases bs with
    | nil => cases h
    | cons b bs =>
      rw [List.flatMap_cons, List.flatMap_cons] at h
      obtain ⟨hhead, htail⟩ := List.append_inj h rfl
      rw [Action.fields_inj hhead, ih htail]

theorem context_prefix {ctx ctx' : List KV} {u v : List String}
    (h : ctx.flatMap KV.fields ++ u = ctx'.flatMap KV.fields ++ v)
    (hlen : ctx'.length ≤ ctx.length) :
    ∃ rest, ctx = ctx' ++ rest ∧ rest.flatMap KV.fields ++ u = v := by
  induction ctx' generalizing ctx with
  | nil => exact ⟨ctx, rfl, h⟩
  | cons kv' ctx' ih =>
    cases ctx with
    | nil => exact absurd hlen (Nat.not_succ_le_zero _)
    | cons kv ctx =>
      rw [List.flatMap_cons, List.flatMap_cons, List.append_assoc, List.append_assoc] at h
      obtain ⟨hhead, htail⟩ := List.append_inj h rfl
      obtain rfl : kv = kv' := by
        obtain ⟨key, value⟩ := kv
        obtain ⟨key', value'⟩ := kv'
        simp only [KV.fields, List.cons.injEq, and_true] at hhead
        obtain ⟨rfl, rfl⟩ := hhead
        rfl
      obtain ⟨rest, rfl, hrest⟩ := ih htail (Nat.le_of_succ_le_succ hlen)
      exact ⟨rest, rfl, hrest⟩

/-- The last five pairs are the fields of two actions. -/
def ReadsAsActions (ctx : List KV) : Prop :=
  ∃ pre p₁ p₂ p₃ p₄ p₅, ctx = pre ++ [p₁, p₂, p₃, p₄, p₅] ∧ IsFlag p₃.key ∧ IsFlag p₅.value

theorem exists_five {rest : List KV} (h : 5 ≤ rest.length) :
    ∃ p₁ p₂ p₃ p₄ p₅ tail, rest = p₁ :: p₂ :: p₃ :: p₄ :: p₅ :: tail := by
  match rest, h with
  | p₁ :: p₂ :: p₃ :: p₄ :: p₅ :: tail, _ => exact ⟨p₁, p₂, p₃, p₄, p₅, tail, rfl⟩

theorem exists_two {bs : List Action} (h : 2 ≤ bs.length) : ∃ u v tail, bs = u :: v :: tail := by
  match bs, h with
  | u :: v :: tail, _ => exact ⟨u, v, tail, rfl⟩

/-- Pairs that are read as actions, two for each five of them. -/
theorem readsAsActions_of {rest : List KV} {as bs : List Action} (hne : rest ≠ [])
    (h : rest.flatMap KV.fields ++ as.flatMap Action.fields = bs.flatMap Action.fields) :
    as.length + 2 ≤ bs.length ∧ ReadsAsActions rest := by
  induction hn : rest.length using Nat.strong_induction_on generalizing rest bs with
  | _ n ih =>
    subst hn
    have hlen := congrArg List.length h
    rw [List.length_append, length_context, length_actions, length_actions] at hlen
    have hpos : 0 < rest.length := List.length_pos_iff.2 hne
    obtain ⟨p₁, p₂, p₃, p₄, p₅, tail, rfl⟩ := exists_five (show 5 ≤ rest.length by omega)
    obtain ⟨u, v, bs, rfl⟩ := exists_two (show 2 ≤ bs.length by omega)
    simp only [List.flatMap_cons, KV.fields, Action.fields, List.cons_append, List.nil_append,
      List.cons.injEq] at h
    obtain ⟨-, -, -, -, hp₃, -, -, -, -, hp₅, htail⟩ := h
    simp only [List.length_cons] at hlen ⊢
    refine ⟨by omega, ?_⟩
    by_cases hrest : tail = []
    · subst hrest
      exact ⟨[], p₁, p₂, p₃, p₄, p₅, rfl, hp₃ ▸ isFlag_formatBool _, hp₅ ▸ isFlag_formatBool _⟩
    · obtain ⟨-, pre, q₁, q₂, q₃, q₄, q₅, rfl, hq₃, hq₅⟩ :=
        ih tail.length (by simp only [List.length_cons]; omega) hrest htail rfl
      exact ⟨p₁ :: p₂ :: p₃ :: p₄ :: p₅ :: pre, q₁, q₂, q₃, q₄, q₅, rfl, hq₃, hq₅⟩

def Action.asContext (u v : Action) : List KV :=
  [⟨u.label, u.icon⟩, ⟨u.kind, u.target⟩, ⟨formatBool u.primary, v.label⟩, ⟨v.icon, v.kind⟩,
    ⟨v.target, formatBool v.primary⟩]

theorem Action.fields_asContext (u v : Action) :
    (u.asContext v).flatMap KV.fields = u.fields ++ v.fields := rfl

theorem Item.fields_of {a b : Item} (hheading : b.heading = a.heading)
    (hdetails : b.details = a.details) : b.fields = a.fields := by
  unfold fields
  rw [hheading, hdetails]

/-- **Among items without zero bytes** the stream of an item is its own, where it has one
action at most and no pairs that read as two. -/
theorem nulFree_faithful {a : Item} (ha : a.NulFree) :
    (∀ b : Item, b.NulFree → a.stream = b.stream → a.SameContent b) ↔
      a.actions.length ≤ 1 ∧ ¬ReadsAsActions a.context := by
  constructor
  · intro h
    -- an item of the same fields, split at another place
    have hsplit : ∀ b : Item, b.heading = a.heading → b.details = a.details →
        a.context = b.context := by
      intro b hheading hdetails
      have hfields := Item.fields_of hheading hdetails
      have hb : b.NulFree := by
        unfold Item.NulFree
        rw [hfields]
        exact ha
      have hstream : a.stream = b.stream := by rw [Item.stream_eq, Item.stream_eq, hfields]
      exact (h b hb hstream).2.2.2.2.2.2.1
    refine ⟨?_, ?_⟩
    · by_contra hmany
      obtain ⟨u, v, rest, hrest⟩ := exists_two (show 2 ≤ a.actions.length by omega)
      have hsame := hsplit { a with context := a.context ++ u.asContext v, actions := rest } rfl (by
        unfold Item.details
        rw [hrest, List.flatMap_append, List.flatMap_cons, List.flatMap_cons,
          Action.fields_asContext]
        simp only [List.append_assoc])
      have hlen := congrArg List.length hsame
      rw [List.length_append] at hlen
      exact absurd hlen (by simp [Action.asContext])
    · rintro ⟨pre, p₁, p₂, p₃, p₄, p₅, hctx, hp₃, hp₅⟩
      have hsame := hsplit { a with
          context := pre
          actions := ⟨p₁.key, p₁.value, p₂.key, p₂.value, p₃.key == "true"⟩ ::
            ⟨p₃.value, p₄.key, p₄.value, p₅.key, p₅.value == "true"⟩ :: a.actions } rfl (by
        unfold Item.details
        rw [hctx, List.flatMap_append, List.flatMap_cons, List.flatMap_cons]
        simp only [Action.fields, ← hp₃.eq_formatBool, ← hp₅.eq_formatBool, List.append_assoc]
        rfl)
      have hlen := congrArg List.length hsame
      rw [hctx, List.length_append] at hlen
      exact absurd hlen (by simp)
  · rintro ⟨hfew, hreads⟩ b hb hstream
    have hfields : a.heading ++ a.details = b.heading ++ b.details :=
      Item.fields_inj ha hb hstream
    obtain ⟨hheading, hdetails⟩ := List.append_inj hfields rfl
    simp only [Item.heading, List.cons.injEq, and_true] at hheading
    obtain ⟨hkey, hcategory, hseverity, hicon, htitle, hbody⟩ := hheading
    have hctx : a.context = b.context ∧ a.actions = b.actions := by
      obtain hle | hle := Nat.le_total b.context.length a.context.length
      · obtain ⟨rest, hrest, htail⟩ := context_prefix hdetails hle
        by_cases hnil : rest = []
        · subst hnil
          exact ⟨hrest.trans (List.append_nil _), actions_inj htail⟩
        · obtain ⟨-, pre, p₁, p₂, p₃, p₄, p₅, rfl, hp₃, hp₅⟩ := readsAsActions_of hnil htail
          refine absurd ⟨b.context ++ pre, p₁, p₂, p₃, p₄, p₅, ?_, hp₃, hp₅⟩ hreads
          rw [hrest, List.append_assoc]
      · obtain ⟨rest, hrest, htail⟩ := context_prefix hdetails.symm hle
        by_cases hnil : rest = []
        · subst hnil
          exact ⟨(hrest.trans (List.append_nil _)).symm, (actions_inj htail).symm⟩
        · have hmore := (readsAsActions_of hnil htail).1
          omega
    exact ⟨hkey, hcategory, hseverity, hicon, htitle, hbody, hctx.1, hctx.2⟩

/-! ## All items -/

/-- An item of the six fields alone, without zero bytes. -/
def Item.Plain (it : Item) : Prop :=
  it.context = [] ∧ it.actions = [] ∧ ∀ f ∈ it.heading, nul ∉ f.toList

instance (it : Item) : Decidable it.Plain := inferInstanceAs (Decidable (_ ∧ _ ∧ _))

theorem textOf_append (ps ps' : List String) : textOf (ps ++ ps') = textOf ps ++ textOf ps' := by
  unfold textOf
  rw [List.map_append, terminated_append]

/-- Two fields of which one has a zero byte, cut at another place. -/
theorem textOf_shift {p q : String} (h : nul ∈ p.toList ∨ nul ∈ q.toList) : ∃ p' q',
    textOf [p', q'] = textOf [p, q] ∧ (p', q') ≠ (p, q) := by
  obtain ⟨cs, cs', htext, hne⟩ := terminated_shift h
  refine ⟨String.ofList cs, String.ofList cs', ?_, fun he => hne ?_⟩
  · unfold textOf
    simpa using htext
  · obtain ⟨rfl, rfl⟩ := Prod.mk.inj he
    rw [String.toList_ofList, String.toList_ofList]

theorem textOf_merge (p : String) (ps : List String) : ∃ p', textOf [p'] = textOf (p :: ps) := by
  obtain ⟨cs, hcs⟩ : ∃ cs, terminated nul (p.toList :: ps.map String.toList) =
      terminated nul [cs] := terminated_merge _ _
  refine ⟨String.ofList cs, ?_⟩
  unfold textOf
  simpa using hcs.symm

theorem Item.textOf_fields (it : Item) : textOf it.fields =
    textOf [it.key, it.category] ++ (textOf [it.severity, it.icon] ++
      (textOf [it.title] ++ textOf (it.body :: it.details))) := by
  rw [← textOf_append, ← textOf_append, ← textOf_append]
  rfl

theorem Item.textOf_bare {it : Item} (h : it.details = []) :
    textOf [it.title] ++ textOf (it.body :: it.details) = textOf [it.title, it.body] := by
  rw [← textOf_append, h]
  rfl

/-- **Among all items** the stream of an item is its own, where it is plain. -/
theorem plain_faithful (a : Item) :
    (∀ b : Item, a.stream = b.stream → a.SameContent b) ↔ a.Plain := by
  constructor
  · intro h
    have hbare : a.context = [] ∧ a.actions = [] := by
      obtain ⟨body, hbody⟩ := textOf_merge a.body a.details
      obtain ⟨-, -, -, -, -, -, hctx, has⟩ :=
        h { a with body := body, context := [], actions := [] } (by
          rw [Item.stream_eq_iff, Item.textOf_fields, Item.textOf_fields]
          exact congrArg _ (congrArg _ (congrArg _ hbody.symm)))
      exact ⟨hctx, has⟩
    refine ⟨hbare.1, hbare.2, fun f hf hnul => ?_⟩
    simp only [Item.heading, List.mem_cons, List.not_mem_nil, or_false] at hf
    have hdetails : a.details = [] := by
      unfold Item.details
      rw [hbare.1, hbare.2]
      rfl
    -- the pair of fields that `f` is one of, cut at another place
    have hpairs : (nul ∈ a.key.toList ∨ nul ∈ a.category.toList) ∨
        (nul ∈ a.severity.toList ∨ nul ∈ a.icon.toList) ∨
          (nul ∈ a.title.toList ∨ nul ∈ a.body.toList) := by
      obtain rfl | rfl | rfl | rfl | rfl | rfl := hf
      · exact .inl (.inl hnul)
      · exact .inl (.inr hnul)
      · exact .inr (.inl (.inl hnul))
      · exact .inr (.inl (.inr hnul))
      · exact .inr (.inr (.inl hnul))
      · exact .inr (.inr (.inr hnul))
    obtain hp | hp | hp := hpairs
    · obtain ⟨p, q, htext, hne⟩ := textOf_shift hp
      have hsame := h { a with key := p, category := q } (by
        rw [Item.stream_eq_iff, Item.textOf_fields, Item.textOf_fields]
        exact congrArg (· ++ _) htext.symm)
      exact hne (Prod.ext hsame.1.symm hsame.2.1.symm)
    · obtain ⟨p, q, htext, hne⟩ := textOf_shift hp
      have hsame := h { a with severity := p, icon := q } (by
        rw [Item.stream_eq_iff, Item.textOf_fields, Item.textOf_fields]
        exact congrArg _ (congrArg (· ++ _) htext.symm))
      exact hne (Prod.ext hsame.2.2.1.symm hsame.2.2.2.1.symm)
    · obtain ⟨p, q, htext, hne⟩ := textOf_shift hp
      have hsame := h { a with title := p, body := q } (by
        rw [Item.stream_eq_iff, Item.textOf_fields, Item.textOf_fields,
          Item.textOf_bare hdetails, ← htext]
        exact congrArg _ (congrArg _
          (Item.textOf_bare (show ({ a with title := p, body := q } : Item).details = []
            from hdetails)).symm))
      exact hne (Prod.ext hsame.2.2.2.2.1.symm hsame.2.2.2.2.2.1.symm)
  · rintro ⟨hctx, has, hfree⟩ b hstream
    have hfields : a.fields = a.heading := by
      unfold Item.fields Item.details
      rw [hctx, has]
      rfl
    have htext := Item.stream_eq_iff.1 hstream
    rw [hfields] at htext
    have hfree' : ∀ cs ∈ a.heading.map String.toList, nul ∉ cs := by
      intro cs hcs
      obtain ⟨f, hf, rfl⟩ := List.mem_map.1 hcs
      exact hfree f hf
    have hlen : (a.heading.map String.toList).length ≤ (b.fields.map String.toList).length := by
      rw [List.length_map, List.length_map, Item.fields, List.length_append]
      exact Nat.le_add_right 6 _
    have hsame := (List.map_injective_iff.2 fun s t hst => String.toList_inj.1 hst)
      (terminated_eq hfree' htext hlen)
    have hnone : a.heading ++ [] = b.heading ++ b.details := (List.append_nil _).trans hsame
    obtain ⟨hheading, hdetails⟩ := List.append_inj hnone rfl
    simp only [Item.heading, List.cons.injEq, and_true] at hheading
    obtain ⟨hkey, hcategory, hseverity, hicon, htitle, hbody⟩ := hheading
    obtain ⟨hctx', has'⟩ := List.append_eq_nil_iff.1 hdetails.symm
    refine ⟨hkey, hcategory, hseverity, hicon, htitle, hbody, ?_, ?_⟩
    · have hlen' := congrArg List.length hctx'
      rw [length_context, List.length_nil] at hlen'
      rw [hctx]
      exact (List.eq_nil_of_length_eq_zero (by omega)).symm
    · have hlen' := congrArg List.length has'
      rw [length_actions, List.length_nil] at hlen'
      rw [has]
      exact (List.eq_nil_of_length_eq_zero (by omega)).symm

/-- **When a stream tells an item from all others**: where it is plain; from those without
zero bytes alone, where it has one action at most and no pairs that read as two. -/
theorem fingerprint_faithful (a : Item) :
    ((∀ b : Item, a.stream = b.stream → a.SameContent b) ↔ a.Plain) ∧
      (a.NulFree → ((∀ b : Item, b.NulFree → a.stream = b.stream → a.SameContent b) ↔
        a.actions.length ≤ 1 ∧ ¬ReadsAsActions a.context)) :=
  ⟨plain_faithful a, nulFree_faithful⟩

/-- A device that is gone, with two actions. -/
def deviceGone : Item :=
  ⟨"", "audio:input", "Audio", severityError, "mic_off", "Microphone lost", "USB headset", [],
    [⟨"Retry", "refresh", "call", "audio.retry", true⟩,
      ⟨"Settings", "settings", "route", "/settings/audio", false⟩], 0, true, false⟩

/-- The same key, with five pairs. -/
def deviceContext : Item := { deviceGone with
  context := [⟨"Retry", "refresh"⟩, ⟨"call", "audio.retry"⟩, ⟨"true", "Settings"⟩,
    ⟨"settings", "route"⟩, ⟨"/settings/audio", "false"⟩]
  actions := [] }

/-- **Two actions are five pairs**, so that the one is not raised while the other is there. -/
theorem fingerprint_two_actions : ¬∀ a b : Item, a.stream = b.stream → a.SameContent b := by
  intro h
  have hfields : deviceGone.fields = deviceContext.fields := rfl
  have hsame := h deviceGone deviceContext (by rw [Item.stream_eq, Item.stream_eq, hfields])
  exact absurd hsame (by decide)

end VcsClient.Notify
