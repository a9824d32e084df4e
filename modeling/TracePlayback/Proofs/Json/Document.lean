import Mathlib.Data.List.Chain
import TracePlayback.Json.Decode
import TracePlayback.Proofs.Json.Scan

/-!
# Documents are read back from their texts

A document is whole (`Doc.Whole`) if nothing in it is broken: every container is closed, every
numeral is spelled as JSON asks and every key is in quotes. It has many texts (`Doc.HasText`): each
spells the tokens of the document in order, every token in any of its ways, with any white space
around it.

A numeral ends where something else begins, so scanning a text gives back the tokens if a bracket, a
comma or a colon stands between any two that are none themselves (`Spaced.scan`). That is so in a
document (`Doc.Whole.chain_tokens`), and the tokens are taken together to it again
(`Doc.Whole.take_tokens`).

* `Doc.HasText.decode`: so decoding a text of a document is reading the document.
* `Doc.Sound.hasText_write`: what is written for a document whose quoted parts are texts is a text
  of it.
-/
namespace TracePlayback.Json

namespace Token

/-- A bracket, a comma or a colon. -/
def isMark : Token → Bool
  | .openList | .closeList | .openObject | .closeObject | .comma | .colon => true
  | _ => false

/-- One of two tokens is a mark. -/
def Beside (t u : Token) : Prop := t.isMark = true ∨ u.isMark = true

theorem Lexeme.stops {t : Token} {lexeme : List Char} (h : t.Lexeme lexeme)
    (ht : t.isMark = true) (rest : List Char) : Stops (lexeme ++ rest) := by
  cases h
  case null => cases ht
  case yes => cases ht
  case no => cases ht
  case number => cases ht
  case quoted => cases ht
  all_goals
    refine ⟨?_, ?_⟩
    · intro c hc; cases hc; decide
    · intro c hc; cases hc; decide

end Token

/-! ## From the text to the tokens -/

theorem stops_of_isSpace {cs : List Char} (h : ∀ c, cs.head? = some c → isSpace c = true) :
    Stops cs := by
  have hspace (c : Char) (hc : isSpace c = true) :
      c.isDigit = false ∧ c ≠ '.' ∧ c ≠ 'e' ∧ c ≠ 'E' := by
    simp only [isSpace, Bool.or_eq_true, decide_eq_true_eq] at hc
    rcases hc with ((rfl | rfl) | rfl) | rfl <;> decide
  exact ⟨fun c hc => (hspace c (h c hc)).1, fun c hc => (hspace c (h c hc)).2⟩

/-- A text spells tokens one after another, with white space around them. -/
inductive Spaced : List Token → List Char → Prop
  | nil {blank : List Char} (h : ∀ c ∈ blank, isSpace c) : Spaced [] blank
  | cons {t : Token} {ts : List Token} {blank lexeme cs : List Char} (h : ∀ c ∈ blank, isSpace c)
      (hlexeme : t.Lexeme lexeme) (rest : Spaced ts cs) : Spaced (t :: ts) (blank ++ (lexeme ++ cs))

namespace Spaced

theorem stops {ts : List Token} {cs : List Char} (h : Spaced ts cs)
    (hmark : ∀ t ∈ ts.head?, t.isMark = true) : Stops cs := by
  cases h with
  | nil h => exact stops_of_isSpace fun c hc => h c (List.mem_of_head? hc)
  | @cons t ts blank lexeme cs h hlexeme rest =>
    cases blank with
    | nil => exact hlexeme.stops (hmark t rfl) cs
    | cons b blank =>
      refine stops_of_isSpace fun c hc => ?_
      cases hc
      exact h b List.mem_cons_self

/-- The tokens are scanned from the text, if of two neighbours one is a mark. -/
theorem scan {ts : List Token} {cs : List Char} (h : Spaced ts cs)
    (hts : ts.IsChain Token.Beside) : Json.scan cs = ts := by
  induction h with
  | @nil blank h => rw [← List.append_nil blank, scan_blank h, scan_nil]
  | @cons t ts blank lexeme cs h hlexeme rest ih =>
    have hends : t.Ends cs := by
      cases t with
      | number n =>
        refine rest.stops fun u hu => ?_
        exact (hts.rel_head? hu).resolve_left Bool.false_ne_true
      | _ => trivial
    rw [scan_blank h, hlexeme.scan hends, ih hts.tail]

theorem blank {ts : List Token} {cs : List Char} (h : Spaced ts cs) {blank : List Char}
    (hblank : ∀ c ∈ blank, isSpace c) : Spaced ts (blank ++ cs) := by
  cases h with
  | nil h => exact .nil (List.forall_mem_append.mpr ⟨hblank, h⟩)
  | cons h hlexeme rest =>
    rw [← List.append_assoc]
    exact .cons (List.forall_mem_append.mpr ⟨hblank, h⟩) hlexeme rest

theorem flatten {ts : List Token} {lexemes : List (List Char)}
    (h : List.Forall₂ Token.Lexeme ts lexemes) : Spaced ts lexemes.flatten := by
  induction h with
  | nil => exact .nil nofun
  | cons ht _ ih =>
    have hnone : ∀ c ∈ ([] : List Char), isSpace c := nofun
    exact .cons hnone ht ih

theorem write {ts : List Token} (h : ∀ t ∈ ts, t.Sound) : Spaced ts (ts.flatMap Token.write) :=
  flatten (List.forall₂_map_right_iff.mpr (List.forall₂_same.mpr fun t ht => (h t ht).lexeme))

end Spaced

namespace Doc

def named (members : List (Quoted × Doc)) : List (Doc × Doc) :=
  members.map fun m => (.quoted m.1, m.2)

/-- A document with nothing broken in it. -/
inductive Whole : Doc → Prop
  | null : Whole .null
  | bool (b : Bool) : Whole (.bool b)
  | number {n : Numeral} (h : n.Spelled) : Whole (.number n)
  | quoted (q : Quoted) : Whole (.quoted q)
  | list {items : List Doc} (h : ∀ d ∈ items, Whole d) : Whole (.ofList items)
  | object {members : List (Quoted × Doc)} (h : ∀ m ∈ members, Whole m.2) :
      Whole (.object (named members) .closed)

theorem memberTokens_named (q : Quoted) (v : Doc) (m : Quoted × Doc)
    (members : List (Quoted × Doc)) :
    memberTokens (named ((q, v) :: m :: members)) =
      .quoted q :: .colon :: (v.tokens ++ .comma :: memberTokens (named (m :: members))) :=
  rfl

theorem tokens_object (members : List (Doc × Doc)) :
    (object members .closed).tokens = .openObject :: memberTokens members ++ [.closeObject] :=
  rfl

/-! ## Marks between the tokens -/

theorem chain_mark {t : Token} (ht : t.isMark = true) {ts : List Token}
    (hts : ts.IsChain Token.Beside) : (t :: ts).IsChain Token.Beside :=
  hts.cons fun _ _ => .inl ht

/-- Tokens go together where the second ones begin with a mark. -/
theorem chain_append {ts us : List Token} {t : Token} (hts : ts.IsChain Token.Beside)
    (ht : t.isMark = true) (hus : us.IsChain Token.Beside) :
    (ts ++ t :: us).IsChain Token.Beside := by
  refine hts.append (chain_mark ht hus) fun x _ y hy => ?_
  cases hy
  exact .inr ht

theorem chain_itemTokens {items : List Doc} (h : ∀ d ∈ items, d.tokens.IsChain Token.Beside) :
    (itemTokens items).IsChain Token.Beside := by
  induction items with
  | nil => exact .nil
  | cons d items ih =>
    obtain ⟨hd, hitems⟩ := List.forall_mem_cons.mp h
    cases items with
    | nil => exact hd
    | cons d' items => exact chain_append hd (t := .comma) rfl (ih hitems)

theorem chain_memberTokens {members : List (Quoted × Doc)}
    (h : ∀ m ∈ members, m.2.tokens.IsChain Token.Beside) :
    (memberTokens (named members)).IsChain Token.Beside := by
  have hmember (q : Quoted) {ts : List Token} (hts : ts.IsChain Token.Beside) :
      (.quoted q :: .colon :: ts).IsChain Token.Beside := by
    have hkey : [Token.quoted q].IsChain Token.Beside := .singleton _
    exact chain_append hkey (t := .colon) rfl hts
  induction members with
  | nil => exact .nil
  | cons m members ih =>
    obtain ⟨q, v⟩ := m
    obtain ⟨hv, hmembers⟩ := List.forall_mem_cons.mp h
    cases members with
    | nil => exact hmember q hv
    | cons m' members =>
      rw [memberTokens_named]
      exact hmember q (chain_append hv (t := .comma) rfl (ih hmembers))

/-- Of two tokens of a document that stand side by side one is a mark. -/
theorem Whole.chain_tokens {d : Doc} (h : d.Whole) : d.tokens.IsChain Token.Beside := by
  induction h with
  | null | bool | number | quoted => exact .singleton _
  | list _ ih => exact chain_append (chain_mark rfl (chain_itemTokens ih)) rfl .nil
  | object _ ih => exact chain_append (chain_mark rfl (chain_memberTokens ih)) rfl .nil

/-! ## From the tokens to the document -/

theorem Whole.tokens_head {d : Doc} (h : d.Whole) :
    ∃ t ts, d.tokens = t :: ts ∧ t ≠ .closeList ∧ t ≠ .closeObject := by
  cases h
  all_goals exact ⟨_, _, rfl, by simp, by simp⟩

-- A container that is not empty goes to the loop over its items, whatever its first token is.
theorem take_openList {t : Token} (ht : t ≠ .closeList) (fuel : Nat) (ts : List Token) :
    take (fuel + 1) (.openList :: t :: ts) =
      (.list (takeItems fuel (t :: ts)).1 (takeItems fuel (t :: ts)).2.1,
        (takeItems fuel (t :: ts)).2.2) := by
  cases t <;> first | exact absurd rfl ht | rfl

theorem take_openObject {t : Token} (ht : t ≠ .closeObject) (fuel : Nat) (ts : List Token) :
    take (fuel + 1) (.openObject :: t :: ts) =
      (.object (takeMembers fuel (t :: ts)).1 (takeMembers fuel (t :: ts)).2.1,
        (takeMembers fuel (t :: ts)).2.2) := by
  cases t <;> first | exact absurd rfl ht | rfl

/-- With fuel for two calls a token, the tokens of a document are taken together to it. -/
def Taken (d : Doc) : Prop :=
  ∀ fuel rest, 2 * d.tokens.length ≤ fuel → take fuel (d.tokens ++ rest) = (d, rest)

theorem takeItems_itemTokens {items : List Doc} (hne : items ≠ []) (h : ∀ d ∈ items, Taken d)
    (fuel : Nat) (rest : List Token) (hfuel : 2 * (itemTokens items).length + 1 ≤ fuel) :
    takeItems fuel (itemTokens items ++ .closeList :: rest) = (items, .closed, rest) := by
  induction items generalizing fuel with
  | nil => exact absurd rfl hne
  | cons d items ih =>
    obtain ⟨fuel, rfl⟩ : ∃ k, fuel = k + 1 := ⟨fuel - 1, by omega⟩
    have hd := h d List.mem_cons_self fuel
    cases items with
    | nil =>
      rw [itemTokens] at hfuel ⊢
      simp only [takeItems, hd _ (by omega)]
    | cons d' items =>
      have hcons : itemTokens (d :: d' :: items) = d.tokens ++ .comma :: itemTokens (d' :: items) :=
        rfl
      rw [hcons] at hfuel ⊢
      simp only [List.length_append, List.length_cons] at hfuel
      rw [List.append_assoc, takeItems, hd _ (by omega)]
      simp only [List.cons_append]
      rw [ih (List.cons_ne_nil _ _) (fun x hx => h x (List.mem_cons_of_mem d hx)) fuel (by omega)]

theorem takeMembers_last {fuel : Nat} {v : Doc} {ts rest : List Token}
    (hv : take (fuel + 1) ts = (v, .closeObject :: rest)) (q : Quoted) :
    takeMembers (fuel + 2) (.quoted q :: .colon :: ts) = ([(.quoted q, v)], .closed, rest) := by
  have hkey : take (fuel + 1) (.quoted q :: .colon :: ts) = (.quoted q, .colon :: ts) := rfl
  simp only [takeMembers, hkey, hv]

theorem takeMembers_comma {fuel : Nat} {v : Doc} {ts rest : List Token}
    (hv : take (fuel + 1) ts = (v, .comma :: rest)) (q : Quoted) :
    takeMembers (fuel + 2) (.quoted q :: .colon :: ts) =
      ((.quoted q, v) :: (takeMembers (fuel + 1) rest).1, (takeMembers (fuel + 1) rest).2) := by
  have hkey : take (fuel + 1) (.quoted q :: .colon :: ts) = (.quoted q, .colon :: ts) := rfl
  conv => lhs; rw [takeMembers]
  simp only [hkey, hv]

theorem takeMembers_memberTokens {members : List (Quoted × Doc)} (hne : members ≠ [])
    (h : ∀ m ∈ members, Taken m.2) (fuel : Nat) (rest : List Token)
    (hfuel : 2 * (memberTokens (named members)).length + 1 ≤ fuel) :
    takeMembers fuel (memberTokens (named members) ++ .closeObject :: rest) =
      (named members, .closed, rest) := by
  induction members generalizing fuel with
  | nil => exact absurd rfl hne
  | cons m members ih =>
    obtain ⟨q, v⟩ := m
    have hv : Taken v := h (q, v) List.mem_cons_self
    cases members with
    | nil =>
      have hcons : memberTokens (named [(q, v)]) = .quoted q :: .colon :: v.tokens := rfl
      rw [hcons] at hfuel ⊢
      simp only [List.length_cons] at hfuel
      obtain ⟨fuel, rfl⟩ : ∃ k, fuel = k + 2 := ⟨fuel - 2, by omega⟩
      exact takeMembers_last (hv (fuel + 1) _ (by omega)) q
    | cons m' members =>
      rw [memberTokens_named] at hfuel ⊢
      simp only [List.length_cons, List.length_append] at hfuel
      obtain ⟨fuel, rfl⟩ : ∃ k, fuel = k + 2 := ⟨fuel - 2, by omega⟩
      have hrest := ih (List.cons_ne_nil _ _) (fun x hx => h x (List.mem_cons_of_mem _ hx))
        (fuel + 1) (by omega)
      rw [List.cons_append, List.cons_append, List.append_assoc, List.cons_append,
        takeMembers_comma (hv (fuel + 1) _ (by omega)) q, hrest]
      rfl

/-- The tokens of a whole document are taken together to it. -/
theorem Whole.take_tokens {d : Doc} (h : d.Whole) : Taken d := by
  induction h with
  | null | bool | number | quoted =>
    intro fuel rest hfuel
    obtain ⟨fuel, rfl⟩ : ∃ k, fuel = k + 1 :=
      ⟨fuel - 1, by simp only [tokens, List.length_singleton] at hfuel; omega⟩
    rfl
  | @list items hitems ih =>
    intro fuel rest hfuel
    simp only [ofList, tokens, List.length_cons, List.length_append, List.length_nil] at hfuel
    obtain ⟨fuel, rfl⟩ : ∃ k, fuel = k + 1 := ⟨fuel - 1, by omega⟩
    cases items with
    | nil => rfl
    | cons d items =>
      have htaken := takeItems_itemTokens (List.cons_ne_nil _ _) ih fuel rest (by omega)
      obtain ⟨t, ts, hts, ht, -⟩ := (hitems d List.mem_cons_self).tokens_head
      obtain ⟨ts', hts'⟩ : ∃ ts', itemTokens (d :: items) = t :: ts' := by
        cases items <;> simp only [itemTokens, hts, List.cons_append] <;> exact ⟨_, rfl⟩
      simp only [ofList, tokens, List.cons_append, List.append_assoc, List.nil_append]
      rw [hts', List.cons_append] at htaken ⊢
      rw [take_openList ht, htaken]
  | @object members hmembers ih =>
    intro fuel rest hfuel
    simp only [tokens_object, List.cons_append, List.length_cons, List.length_append,
      List.length_nil] at hfuel
    obtain ⟨fuel, rfl⟩ : ∃ k, fuel = k + 1 := ⟨fuel - 1, by omega⟩
    cases members with
    | nil => rfl
    | cons m members =>
      have htaken := takeMembers_memberTokens (List.cons_ne_nil _ _) ih fuel rest (by omega)
      obtain ⟨ts', hts'⟩ : ∃ ts', memberTokens (named (m :: members)) = .quoted m.1 :: ts' := by
        cases members <;> exact ⟨_, rfl⟩
      simp only [tokens_object, List.cons_append, List.append_assoc, List.nil_append]
      rw [hts', List.cons_append] at htaken ⊢
      rw [take_openObject (by simp), htaken]

theorem Whole.ofTokens_tokens {d : Doc} (h : d.Whole) : ofTokens d.tokens = (d, []) := by
  have htaken := h.take_tokens (2 * d.tokens.length + 2) [] (by omega)
  rwa [List.append_nil] at htaken

/-! ## Texts of a document -/

/-- The text spells the document, with any white space and in any spelling of its parts. -/
structure HasText (d : Doc) (text : List Char) : Prop where
  whole : d.Whole
  spaced : Spaced d.tokens text

/-- Decoding a text of a document is reading the document. -/
theorem HasText.decode {d : Doc} {text : List Char} (h : d.HasText text) {α : Type}
    (read : Reading → Doc → Result α) : Json.decode read text = read .start d := by
  simp only [Json.decode, h.spaced.scan h.whole.chain_tokens, h.whole.ofTokens_tokens]
  cases read .start d <;> rfl

/-! ## The text that is written -/

/-- A document with nothing broken in it whose quoted parts are texts. -/
inductive Sound : Doc → Prop
  | null : Sound .null
  | bool (b : Bool) : Sound (.bool b)
  | number {n : Numeral} (h : n.Spelled) : Sound (.number n)
  | text (s : String) : Sound (.ofString s)
  | list {items : List Doc} (h : ∀ d ∈ items, Sound d) : Sound (.ofList items)
  | object {members : List (String × Doc)} (h : ∀ m ∈ members, Sound m.2) :
      Sound (.ofMembers members)

def keyed (members : List (String × Doc)) : List (Doc × Doc) :=
  members.map fun m => (ofString m.1, m.2)

theorem keyed_eq_named (members : List (String × Doc)) :
    keyed members = named (members.map fun m => (.text m.1, m.2)) := by
  rw [named, List.map_map]; rfl

theorem Sound.whole {d : Doc} (h : d.Sound) : d.Whole := by
  induction h with
  | null => exact .null
  | bool b => exact .bool b
  | number h => exact .number h
  | text s => exact .quoted (.text s)
  | list _ ih => exact .list ih
  | @object members _ ih =>
    change Whole (.object (keyed members) .closed)
    rw [keyed_eq_named]
    refine .object fun m hm => ?_
    obtain ⟨m', hm', rfl⟩ := List.mem_map.mp hm
    exact ih m' hm'

theorem sound_itemTokens {items : List Doc} (h : ∀ d ∈ items, ∀ t ∈ d.tokens, t.Sound) :
    ∀ t ∈ itemTokens items, t.Sound := by
  induction items with
  | nil => nofun
  | cons d items ih =>
    obtain ⟨hd, hitems⟩ := List.forall_mem_cons.mp h
    cases items with
    | nil => exact hd
    | cons d' items =>
      exact List.forall_mem_append.mpr ⟨hd, List.forall_mem_cons.mpr ⟨trivial, ih hitems⟩⟩

theorem sound_memberTokens {members : List (String × Doc)}
    (h : ∀ m ∈ members, ∀ t ∈ m.2.tokens, t.Sound) :
    ∀ t ∈ memberTokens (keyed members), t.Sound := by
  have hmember (s : String) {ts : List Token} (hts : ∀ t ∈ ts, t.Sound) :
      ∀ t ∈ Token.quoted (.text s) :: .colon :: ts, t.Sound :=
    List.forall_mem_cons.mpr ⟨trivial, List.forall_mem_cons.mpr ⟨trivial, hts⟩⟩
  induction members with
  | nil => nofun
  | cons m members ih =>
    obtain ⟨s, v⟩ := m
    obtain ⟨hv, hmembers⟩ := List.forall_mem_cons.mp h
    cases members with
    | nil => exact hmember s hv
    | cons m' members =>
      exact hmember s
        (List.forall_mem_append.mpr ⟨hv, List.forall_mem_cons.mpr ⟨trivial, ih hmembers⟩⟩)

theorem Sound.tokens {d : Doc} (h : d.Sound) : ∀ t ∈ d.tokens, t.Sound := by
  induction h with
  | null | bool | text => exact List.forall_mem_singleton.mpr trivial
  | number h => exact List.forall_mem_singleton.mpr h
  | list _ ih =>
    exact List.forall_mem_cons.mpr ⟨trivial,
      List.forall_mem_append.mpr ⟨sound_itemTokens ih, List.forall_mem_singleton.mpr trivial⟩⟩
  | object _ ih =>
    exact List.forall_mem_cons.mpr ⟨trivial,
      List.forall_mem_append.mpr ⟨sound_memberTokens ih, List.forall_mem_singleton.mpr trivial⟩⟩

theorem Sound.hasText_write {d : Doc} (h : d.Sound) : d.HasText d.write :=
  ⟨h.whole, Spaced.write h.tokens⟩

end Doc

/-- Decoding the text of a sound document is reading the document. -/
theorem decode_write {α : Type} (read : Reading → Doc → Result α) {d : Doc} (h : d.Sound) :
    decode read d.write = read .start d :=
  h.hasText_write.decode read

end TracePlayback.Json
