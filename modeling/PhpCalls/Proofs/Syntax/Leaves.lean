import Mathlib.Data.List.Infix
import PhpCalls.Proofs.Syntax.Lexeme
import PhpCalls.Syntax.Parse

set_option autoImplicit false

/-!
# Parsers that lose nothing

The leaves of a syntax tree, in the order of the text, are the tokens from which it was put
together, with the comments between them. A parser that is put together by the combinators keeps
that: what it gives has for its leaves the tokens that it took, behind those of the fragment that it
went on from. A node begins and ends on the lines of its first and its last part, and what a
function, a method or a class is named by is a word of the page.

## Main definitions

* `Node.leaves`, `Token.leaves`: the leaves of a node and of a token.
* `Kind.declares`: the kinds of declarations that are known by a name.
* `Node.WellFormed`: every node begins and ends with its parts, and every declaration is named by a
  name.
* `Parse.Peeks`: a parser takes no token.
* `Parse.Adds`: what a parser gives are the leaves of a fragment, and behind them the tokens that it
  took.
* `Parse.Roleless`, `Parse.Names`: a parser gives nothing that is in a role; some parsers one after
  the other give a name first of all that is in a role.

All four are classes, so that a parser has them as soon as its parts have them.

## Main results

* `Fragment.leaves_close`, `Fragment.WellFormed.close`: closing a node changes no leaf.
* `Parse.adds_bind`, `Parse.adds_then`: one parser after another.
* `Parse.adds_node`, `Parse.adds_repeated`, `Parse.adds_separated`: the combinators keep
  `Parse.Adds`.
* `Parse.adds_node_of_names`: a rule for declarations that takes their name from the page keeps it
  too.
-/

namespace PhpCalls.Syntax

/-! ## Declarations -/

namespace Kind

/-- The kinds of declarations that are known by a name. -/
@[reducible] def declares : Kind → Bool
  | .functionDefinition | .methodDeclaration | .classDeclaration | .interfaceDeclaration
  | .traitDeclaration | .enumDeclaration => true
  | _ => false

/-- A truth value that the search for instances computes to `false`. -/
class IsFalse (b : Bool) : Prop where
  eq_false : b = false

instance isFalse_false : IsFalse false := ⟨rfl⟩

/-- The kind is not that of a declaration that is known by a name. -/
class Plain (k : Kind) : Prop where
  declares_eq_false : k.declares = false

/-- A plain kind declares nothing. -/
lemma not_declares {k : Kind} [hk : k.Plain] : ¬ k.declares = true := by
  simp [hk.declares_eq_false]

instance plain_of_isFalse (k : Kind) [h : IsFalse k.declares] : k.Plain := ⟨h.eq_false⟩

instance plain_ite {c : Prop} [Decidable c] {k l : Kind} [hk : k.Plain] [hl : l.Plain] :
    (if c then k else l).Plain := by
  split
  · exact hk
  · exact hl

end Kind

/-! ## Leaves -/

/-- A part of the page that no node divides. -/
structure Leaf where
  text : String
  startLine : Nat
  endLine : Nat

namespace Node

mutual

/-- The parts of the text of a node that no node divides. -/
def leaves : Node → List Leaf
  | .mk _ _ t s e [] => [⟨t, s, e⟩]
  | .mk _ _ _ _ _ (c :: cs) => leaves c ++ leavesOfAll cs

/-- The leaves of several nodes. -/
def leavesOfAll : List Node → List Leaf
  | [] => []
  | n :: ns => leaves n ++ leavesOfAll ns

end

/-- The leaves of several nodes are those of each, one after the other. -/
lemma leavesOfAll_eq_flatMap (ns : List Node) : leavesOfAll ns = ns.flatMap leaves := by
  induction ns with
  | nil => rfl
  | cons n ns ih => rw [leavesOfAll, ih, List.flatMap_cons]

/-- The leaves of a node with children are those of its children. -/
lemma leaves_of_ne_nil {r : Option Role} {k : Kind} {t : String} {s e : Nat} {cs : List Node}
    (h : cs ≠ []) : (mk r k t s e cs).leaves = cs.flatMap leaves := by
  cases cs with
  | nil => exact absurd rfl h
  | cons c cs => rw [leaves, leavesOfAll_eq_flatMap, List.flatMap_cons]

/-- The first of some nodes in the role of a name is a name. -/
def Named (cs : List Node) : Prop :=
  ∀ c, cs.find? (fun c => c.role = some .name) = some c → Lexeme.IsName c.text.toList

/-- Every node begins on the line of its first part and ends on that of its last part, and every
declaration is named by a name. -/
inductive WellFormed : Node → Prop
  | leaf (r : Option Role) (k : Kind) (t : String) (s e : Nat) : WellFormed (mk r k t s e [])
  | node (r : Option Role) {k : Kind} (t : String) {first last : Node} {cs : List Node}
      (hname : k.declares = true → Named cs)
      (hfirst : cs.head? = some first) (hlast : cs.getLast? = some last)
      (hparts : ∀ c ∈ cs, WellFormed c) : WellFormed (mk r k t first.startLine last.endLine cs)

/-- A node of a plain kind may be named by anything. -/
lemma WellFormed.plainNode (r : Option Role) {k : Kind} [k.Plain] (t : String) {first last : Node}
    {cs : List Node} (hfirst : cs.head? = some first) (hlast : cs.getLast? = some last)
    (hparts : ∀ c ∈ cs, c.WellFormed) : (mk r k t first.startLine last.endLine cs).WellFormed :=
  .node r t (fun hdeclares => absurd hdeclares Kind.not_declares) hfirst hlast hparts

/-- A node in a role has its kind. -/
@[simp] lemma kind_inRole (r : Role) (n : Node) : (n.inRole r).kind = n.kind := by
  obtain ⟨⟩ := n
  rfl

/-- A node in a role has its leaves. -/
@[simp] lemma leaves_inRole (r : Role) (n : Node) : (n.inRole r).leaves = n.leaves := by
  obtain ⟨_, k, t, s, e, _ | ⟨c, cs⟩⟩ := n <;> rfl

/-- A well-formed node is well-formed in every role. -/
lemma WellFormed.inRole {n : Node} (h : n.WellFormed) (r : Role) : (n.inRole r).WellFormed := by
  cases h with
  | leaf => exact .leaf ..
  | node _ t hname hfirst hlast hparts => exact .node _ t hname hfirst hlast hparts

end Node

/-- The node is well formed, and in no role if it is an extra. -/
structure Piece.WellFormed (p : Piece) : Prop where
  node : p.node.WellFormed
  role_eq_none : p.node.kind.isExtra = true → p.node.role = none

namespace Fragment

/-- The leaves of a fragment. -/
def leaves (f : Fragment) : List Leaf := f.flatMap fun p => p.node.leaves

/-- Every piece of the fragment is well formed. -/
def WellFormed (f : Fragment) : Prop := ∀ p ∈ f, p.WellFormed

/-- No piece of the fragment is in a role. -/
def Roleless (f : Fragment) : Prop := ∀ p ∈ f, p.node.role = none

/-- The first piece in the role of a name is a name. -/
def Named (f : Fragment) : Prop := Node.Named (f.map Piece.node)

/-- The empty fragment has no leaves. -/
@[simp] lemma leaves_nil : leaves [] = [] := rfl

/-- The leaves of two fragments follow one another. -/
@[simp] lemma leaves_append (f g : Fragment) : leaves (f ++ g) = f.leaves ++ g.leaves :=
  List.flatMap_append

/-- The empty fragment is well-formed. -/
@[simp] lemma wellFormed_nil : WellFormed [] := fun _ h => by cases h

/-- Two fragments are well-formed one after the other exactly if both are. -/
@[simp] lemma wellFormed_append {f g : Fragment} :
    WellFormed (f ++ g) ↔ f.WellFormed ∧ g.WellFormed := by
  simp [WellFormed, or_imp, forall_and]

/-- Two fragments without roles have none one after the other. -/
lemma roleless_append {f g : Fragment} (hf : f.Roleless) (hg : g.Roleless) : Roleless (f ++ g) :=
  List.forall_mem_append.mpr ⟨hf, hg⟩

/-- What is in no role does not hide a name. -/
lemma named_append_iff {f g : Fragment} (hf : f.Roleless) : Named (f ++ g) ↔ g.Named := by
  have hnone : (f.map Piece.node).find? (fun c => c.role = some .name) = none := by
    simpa [List.find?_eq_none] using fun p hp => by simp [hf p hp]
  rw [Named, Named, Node.Named, List.map_append, List.find?_append, hnone]
  rfl

/-- The extras in front of a fragment, and the rest. -/
lemma lead_append_parts (f : Fragment) :
    (f.takeWhile fun p => p.node.kind.isExtra)
      ++ f.drop (f.takeWhile fun p => p.node.kind.isExtra).length = f :=
  List.prefix_iff_eq_append.1 (List.takeWhile_prefix _)

/-- Closing a node changes no leaf: the extras in front stay where they are, the others become its
parts. -/
@[simp] lemma leaves_close (k : Kind) (f : Fragment) : (f.close k).leaves = f.leaves := by
  fun_cases close k f with
  | case1 => rfl
  | case2 lead parts p ps hparts last =>
    have hsplit : f = lead ++ p :: ps := by rw [← hparts]; exact (lead_append_parts f).symm
    rw [hsplit, leaves_append, leaves_append]
    simp [leaves, Node.leaves_of_ne_nil, List.flatMap_map, hparts]

/-- The extras in front are in no role. -/
lemma WellFormed.roleless_lead {f : Fragment} (h : f.WellFormed) :
    Roleless (f.takeWhile fun p => p.node.kind.isExtra) := by
  intro p hp
  have hextra : p.node.kind.isExtra = true := List.all_eq_true.mp List.all_takeWhile p hp
  exact (h p ((List.takeWhile_prefix _).subset hp)).role_eq_none hextra

/-- A well-formed fragment is closed into a well-formed node, if it has a name where one is
needed. -/
lemma WellFormed.close {f : Fragment} (h : f.WellFormed) {k : Kind}
    (hname : k.declares = true → f.Named) : (f.close k).WellFormed := by
  have hroleless := h.roleless_lead
  fun_cases Fragment.close k f with
  | case1 => exact h
  | case2 lead parts p ps hparts last =>
    have hsplit : f = lead ++ p :: ps := by rw [← hparts]; exact (lead_append_parts f).symm
    rw [hsplit] at h hname
    obtain ⟨hlead, hrest⟩ := wellFormed_append.mp h
    refine wellFormed_append.mpr ⟨hlead, List.forall_mem_singleton.mpr ⟨?_, fun _ => rfl⟩⟩
    rw [hparts]
    refine .node none _ (fun hdeclares => ?_) rfl ?_ fun c hc => ?_
    · exact (named_append_iff hroleless).mp (hname hdeclares)
    · rw [List.getLast?_map, List.getLast?_cons]
      rfl
    · obtain ⟨q, hq, rfl⟩ := List.mem_map.mp hc
      exact (hrest q hq).node

/-- A node that declares nothing needs no name. -/
lemma WellFormed.close_plain {f : Fragment} (h : f.WellFormed) {k : Kind} [k.Plain] :
    (f.close k).WellFormed :=
  h.close fun hdeclares => absurd hdeclares Kind.not_declares

/-- A closed node is in no role, and neither are the extras in front of it. -/
lemma WellFormed.roleless_close {f : Fragment} (h : f.WellFormed) (k : Kind) :
    (f.close k).Roleless := by
  have hroleless := h.roleless_lead
  fun_cases Fragment.close k f with
  | case1 lead parts hparts =>
    have hsplit : lead ++ [] = f := by rw [← hparts]; exact lead_append_parts f
    rwa [← hsplit, List.append_nil]
  | case2 => exact roleless_append hroleless (List.forall_mem_singleton.mpr rfl)

/-- A change of pieces that keeps the leaves of each keeps those of the fragment. -/
lemma leaves_map {g : Piece → Piece} (hg : ∀ p, (g p).node.leaves = p.node.leaves) (f : Fragment) :
    leaves (f.map g) = f.leaves := by
  rw [leaves, leaves, List.flatMap_map]
  exact congrArg (List.flatMap · f) (funext hg)

/-- A change of pieces that keeps each well-formed keeps the fragment well-formed. -/
lemma WellFormed.map {f : Fragment} (h : f.WellFormed) {g : Piece → Piece}
    (hg : ∀ p, p.WellFormed → (g p).WellFormed) : WellFormed (List.map g f) := by
  intro q hq
  obtain ⟨p, hp, rfl⟩ := List.mem_map.mp hq
  exact hg p (h p hp)

/-- A fragment in a role has its leaves. -/
@[simp] lemma leaves_inRole (r : Role) (f : Fragment) : (f.inRole r).leaves = f.leaves := by
  refine leaves_map (fun p => ?_) f
  split <;> simp

/-- A well-formed fragment is well-formed in every role. -/
lemma WellFormed.inRole {f : Fragment} (h : f.WellFormed) (r : Role) : (f.inRole r).WellFormed := by
  refine h.map fun p hp => ?_
  split
  · exact hp
  next hextra => exact ⟨hp.node.inRole r, fun hkind => absurd (by simpa using hkind) hextra⟩

end Fragment

namespace Token

/-- The leaves of a token: the extras before it, and its own text. -/
def leaves (t : Token) : List Leaf := Fragment.leaves t.extras ++ [⟨t.text, t.startLine, t.endLine⟩]

/-- What stands before the token are well-formed extras, and a word is a name. -/
structure WellFormed (t : Token) : Prop where
  extras : Fragment.WellFormed t.extras
  isExtra : ∀ p ∈ t.extras, p.node.kind.isExtra = true
  isName : t.sort = some .word → Lexeme.IsName t.text.toList

/-- A token has the same leaves when it is made a leaf. -/
lemma leaves_leaf (k : Kind) (t : Token) : (t.leaf k).leaves = t.leaves := by
  rw [leaf, Fragment.leaves_append]
  rfl

/-- A well-formed token is a well-formed leaf. -/
lemma WellFormed.leaf {t : Token} (h : t.WellFormed) (k : Kind) : (t.leaf k).WellFormed :=
  Fragment.wellFormed_append.mpr
    ⟨h.extras, List.forall_mem_singleton.mpr ⟨.leaf .., fun _ => rfl⟩⟩

/-- What stands before a well-formed token has no role. -/
lemma WellFormed.roleless_extras {t : Token} (h : t.WellFormed) : Fragment.Roleless t.extras :=
  fun p hp => (h.extras p hp).role_eq_none (h.isExtra p hp)

/-- A well-formed token has no role as a leaf. -/
lemma WellFormed.roleless_leaf {t : Token} (h : t.WellFormed) (k : Kind) : (t.leaf k).Roleless :=
  Fragment.roleless_append h.roleless_extras (List.forall_mem_singleton.mpr rfl)

/-- A word that is taken as a name is a name, whatever follows. -/
lemma WellFormed.named_leaf {t : Token} (h : t.WellFormed) (hword : t.sort = some .word)
    (f : Fragment) : Fragment.Named ((t.leaf .name).inRole .name ++ f) := by
  have hextras : Fragment.inRole .name t.extras = t.extras :=
    (List.map_congr_left fun p hp => if_pos (h.isExtra p hp)).trans (List.map_id _)
  have hleaf : (t.leaf .name).inRole .name ++ f =
      t.extras ++ ⟨t.gap, .mk (some .name) .name t.text t.startLine t.endLine []⟩ :: f := by
    rw [Token.leaf, Fragment.inRole, List.map_append, ← Fragment.inRole, hextras, List.append_assoc]
    rfl
  rw [hleaf, Fragment.named_append_iff h.roleless_extras]
  rintro _ ⟨⟩
  exact h.isName hword

end Token

/-! ## Parsers -/

namespace Parse

variable {α β : Type}

/-- The parser only looks ahead: it takes no token. -/
class Peeks (x : Parse α) : Prop where
  rest_eq : ∀ {ts a rest}, x.run ts = some (a, rest) → rest = ts

/-- What the parser gives are the leaves of `base`, and behind them those of the tokens that it
took. -/
class Adds (base : Fragment) (p : Parse Fragment) : Prop where
  exists_taken : ∀ {ts f rest}, p.run ts = some (f, rest) → base.WellFormed →
    (∀ t ∈ ts, t.WellFormed) →
    ∃ taken, ts = taken ++ rest ∧ f.leaves = base.leaves ++ taken.flatMap Token.leaves ∧
      f.WellFormed

/-- Every one of some parsers gives just the tokens that it took. -/
class AllAdd (ps : List (Parse Fragment)) : Prop where
  adds : ∀ p ∈ ps, Adds [] p

/-- A run of two parsers after one another is a run of each. -/
lemma run_bind_eq_some {x : Parse α} {k : α → Parse β} {ts rest : List Token} {b : β}
    (h : (x >>= k).run ts = some (b, rest)) :
    ∃ a mid, x.run ts = some (a, mid) ∧ (k a).run mid = some (b, rest) := by
  rw [StateT.run_bind] at h
  obtain ⟨⟨a, mid⟩, hx, hk⟩ := Option.bind_eq_some_iff.mp h
  exact ⟨a, mid, hx, hk⟩

/-! ### Looking ahead -/

instance peeks_pure (a : α) : Peeks (pure a) := ⟨by rintro ts _ _ ⟨⟩; rfl⟩

instance peeks_bind {x : Parse α} {k : α → Parse β} [hx : Peeks x] [hk : ∀ a, Peeks (k a)] :
    Peeks (x >>= k) := by
  refine ⟨fun h => ?_⟩
  obtain ⟨a, mid, hrun, hrest⟩ := run_bind_eq_some h
  rw [(hk a).rest_eq hrest, hx.rest_eq hrun]

instance peeks_ahead : Peeks ahead := ⟨by rintro ts _ _ ⟨⟩; rfl⟩

instance peeks_sees (c : Token → Bool) : Peeks (sees c) := by unfold sees; infer_instance

instance peeks_seesMark (m : String) : Peeks (seesMark m) := peeks_sees _

instance peeks_seesMarkOf (ms : List String) : Peeks (seesMarkOf ms) := peeks_sees _

instance peeks_seesWord (w : String) : Peeks (seesWord w) := peeks_sees _

instance peeks_seesSecond (c : Token → Bool) : Peeks (seesSecond c) := by
  unfold seesSecond; infer_instance

instance peeks_sameStatement : Peeks sameStatement := by unfold sameStatement; infer_instance

/-! ### One parser after another -/

variable {base : Fragment} {p q : Parse Fragment} {ps : List (Parse Fragment)}

instance adds_failure : Adds base failure := ⟨by rintro ts f rest ⟨⟩⟩

/-- Giving what is there already takes no token. -/
lemma adds_pure_of_leaves_eq {f : Fragment} (h : f.leaves = base.leaves)
    (hf : base.WellFormed → f.WellFormed) : Adds base (pure f) := by
  refine ⟨?_⟩
  rintro ts _ _ ⟨⟩ hbase -
  exact ⟨[], rfl, by simpa using h, hf hbase⟩

/-- What goes on from the parts of a node goes on from what they were before it was closed. -/
lemma adds_of_close {k : Kind} [k.Plain] (h : Adds (base.close k) p) : Adds base p := by
  refine ⟨fun hrun hbase hts => ?_⟩
  rw [← base.leaves_close k]
  exact h.exists_taken hrun hbase.close_plain hts

instance adds_pure : Adds base (pure base) := adds_pure_of_leaves_eq rfl id

instance adds_pure_close (k : Kind) [k.Plain] : Adds base (pure (base.close k)) :=
  adds_pure_of_leaves_eq (base.leaves_close k) fun h => h.close_plain

instance adds_pure_inRole (r : Role) : Adds base (pure (base.inRole r)) :=
  adds_pure_of_leaves_eq (base.leaves_inRole r) fun h => h.inRole r

/-- After looking ahead, everything is as before. -/
lemma adds_of_peek {x : Parse α} {k : α → Parse Fragment} [hx : Peeks x]
    (hk : ∀ a, Adds base (k a)) : Adds base (x >>= k) := by
  refine ⟨fun h hbase hts => ?_⟩
  obtain ⟨a, mid, hrun, hrest⟩ := run_bind_eq_some h
  obtain rfl := hx.rest_eq hrun
  exact (hk a).exists_taken hrest hbase hts

instance adds_peek_bind {x : Parse α} {k : α → Parse Fragment} [Peeks x]
    [hk : ∀ a, Adds base (k a)] : Adds base (x >>= k) :=
  adds_of_peek hk

/-- A parser goes on from what the one before it gave, and from what was there before that. -/
lemma adds_bind_append {before : Fragment} {k : Fragment → Parse Fragment} (hp : Adds base p)
    (hk : ∀ f, Adds (before ++ f) (k f)) : Adds (before ++ base) (p >>= k) := by
  refine ⟨fun h hwellFormed hts => ?_⟩
  obtain ⟨hbefore, hbase⟩ := Fragment.wellFormed_append.mp hwellFormed
  obtain ⟨f, mid, hrun, hrest⟩ := run_bind_eq_some h
  obtain ⟨taken, rfl, hleaves, hf⟩ := hp.exists_taken hrun hbase hts
  obtain ⟨more, rfl, hleaves', hg⟩ :=
    (hk f).exists_taken hrest (Fragment.wellFormed_append.mpr ⟨hbefore, hf⟩)
      fun t ht => hts t (List.mem_append_right taken ht)
  exact ⟨taken ++ more, by simp, by simp [hleaves', hleaves], hg⟩

/-- A parser that begins anew gives its part behind what is there already. -/
instance (priority := low) adds_then {k : Fragment → Parse Fragment} [hp : Adds [] p]
    [hk : ∀ f, Adds (base ++ f) (k f)] : Adds base (p >>= k) := by
  simpa using adds_bind_append hp hk

/-- A parser goes on from what the one before it gave. -/
instance adds_bind {k : Fragment → Parse Fragment} [hp : Adds base p] [hk : ∀ f, Adds f (k f)] :
    Adds base (p >>= k) := by
  have h : Adds ([] ++ base) (p >>= k) := adds_bind_append hp hk
  exact h

/-- A parser that depends on a condition adds its tokens if both cases do. -/
lemma adds_of_ite {c : Prop} [Decidable c] (hp : Adds base p) (hq : Adds base q) :
    Adds base (if c then p else q) := by
  split
  · exact hp
  · exact hq

instance adds_ite {c : Prop} [Decidable c] [hp : Adds base p] [hq : Adds base q] :
    Adds base (if c then p else q) :=
  adds_of_ite hp hq

instance adds_orElse [hp : Adds base p] [hq : Adds base q] : Adds base (p <|> q) := by
  refine ⟨fun {ts f rest} h hbase hts => ?_⟩
  have hrun : (p.run ts <|> q.run ts) = some (f, rest) := h
  cases hfirst : p.run ts with
  | none => exact hq.exists_taken (by simpa [hfirst] using hrun) hbase hts
  | some found => exact hp.exists_taken (by simpa [hfirst] using hrun) hbase hts

/-! ### Taking tokens -/

/-- A leaf is that of the next token. -/
lemma exists_of_run_leafIf {k : Kind} {c : Token → Bool} {ts rest : List Token} {f : Fragment}
    (h : (leafIf k c).run ts = some (f, rest)) :
    ∃ t, ts = t :: rest ∧ f = t.leaf k ∧ c t = true := by
  obtain ⟨_, _, ⟨⟩, hrest⟩ := run_bind_eq_some (show (ahead >>= _).run ts = _ from h)
  cases ts with
  | nil => cases hrest
  | cons t ts =>
    dsimp only at hrest
    split_ifs at hrest with hc
    · cases hrest
      exact ⟨t, rfl, rfl, (Bool.and_eq_true_iff.mp hc).1⟩
    · cases hrest

instance adds_leafIf (k : Kind) (c : Token → Bool) : Adds [] (leafIf k c) := by
  refine ⟨fun h _ hts => ?_⟩
  obtain ⟨t, rfl, rfl, -⟩ := exists_of_run_leafIf h
  exact ⟨[t], rfl, by simp [Token.leaves_leaf], (hts t List.mem_cons_self).leaf k⟩

instance adds_anyToken : Adds [] anyToken := adds_leafIf _ _

instance adds_mark (m : String) : Adds [] (mark m) := adds_leafIf _ _

instance adds_markAs (k : Kind) (m : String) : Adds [] (markAs k m) := adds_leafIf _ _

instance adds_word (w : String) : Adds [] (word w) := adds_leafIf _ _

instance adds_wordAs (k : Kind) (w : String) : Adds [] (wordAs k w) := adds_leafIf _ _

instance adds_name : Adds [] name := adds_leafIf _ _

instance adds_ofSort (k : Kind) (s : LexemeSort) : Adds [] (ofSort k s) := adds_leafIf _ _

/-! ### Parts of a rule -/

instance allAdd_nil : AllAdd [] := ⟨fun _ h => by cases h⟩

instance allAdd_cons [hp : Adds [] p] [hps : AllAdd ps] : AllAdd (p :: ps) :=
  ⟨List.forall_mem_cons.mpr ⟨hp, hps.adds⟩⟩

/-- The first part goes on from what is there already, the others begin anew. -/
instance adds_row [Adds base p] [hps : AllAdd ps] : Adds base (row (p :: ps)) := by
  obtain ⟨hps⟩ := hps
  induction ps generalizing base p with
  | nil =>
    have hnone : Adds [] (row []) := adds_pure
    rw [row]
    infer_instance
  | cons q ps ih =>
    obtain ⟨hq, hps⟩ := List.forall_mem_cons.mp hps
    have hrest : Adds [] (row (q :: ps)) := ih hps
    rw [row]
    infer_instance

instance adds_node {k : Kind} [k.Plain] [Adds base p] [AllAdd ps] :
    Adds base (node k (p :: ps)) := adds_bind

instance adds_role {r : Role} [Adds base p] : Adds base (role r p) := adds_bind

instance adds_nothing : Adds [] nothing := adds_pure

instance adds_optional [Adds [] p] : Adds [] (optional p) := adds_orElse

instance adds_ifMark {m : String} [Adds [] p] : Adds [] (ifMark m p) := by
  unfold ifMark; infer_instance

instance adds_ifWord {w : String} [Adds [] p] : Adds [] (ifWord w p) := by
  unfold ifWord; infer_instance

/-! ### Parts that come several times -/

instance adds_upTo [Adds [] p] (n : Nat) : Adds [] (upTo p n) := by
  induction n with
  | zero => exact adds_nothing
  | succ n ih => rw [upTo]; infer_instance

instance adds_repeated [Adds [] p] : Adds [] (repeated p) := by unfold repeated; infer_instance

instance adds_untilWithin (stop : Token → Bool) [Adds [] p] (n : Nat) :
    Adds [] (untilWithin stop p n) := by
  induction n with
  | zero => exact adds_nothing
  | succ n ih => rw [untilWithin]; infer_instance

instance adds_until {stop : Token → Bool} [Adds [] p] : Adds [] (until_ stop p) := by
  unfold until_; infer_instance

instance adds_separatedWithin (closer : String) [Adds [] p] (n : Nat) :
    Adds [] (separatedWithin closer p n) := by
  induction n with
  | zero => exact adds_nothing
  | succ n ih => rw [separatedWithin]; infer_instance

instance adds_separated {closer : String} [Adds [] p] : Adds [] (separated closer p) := by
  unfold separated; infer_instance

instance adds_joined {m : String} [Adds [] p] : Adds [] (joined m p) := by
  unfold joined; infer_instance

instance adds_commaList [Adds [] p] : Adds [] (commaList p) := adds_joined

instance adds_semicolon : Adds [] semicolon := by unfold semicolon; infer_instance

/-! ### Declarations -/

/-- The parser gives nothing that is in a role. -/
class Roleless (p : Parse Fragment) : Prop where
  roleless : ∀ {ts f rest}, p.run ts = some (f, rest) → (∀ t ∈ ts, t.WellFormed) →
    f.Roleless ∧ ∀ t ∈ rest, t.WellFormed

/-- Of what the parsers give one after the other, the first piece in the role of a name is a
name. -/
class Names (ps : List (Parse Fragment)) : Prop where
  named : ∀ {ts f rest}, (row ps).run ts = some (f, rest) → (∀ t ∈ ts, t.WellFormed) → f.Named

/-- A fragment without roles may be given without reading anything. -/
lemma roleless_pure {f : Fragment} (h : f.Roleless) : Roleless (pure f) := by
  refine ⟨?_⟩
  rintro ts _ _ ⟨⟩ hts
  exact ⟨h, hts⟩

instance roleless_nothing : Roleless nothing := roleless_pure nofun

instance roleless_failure : Roleless failure := ⟨by rintro ts f rest ⟨⟩⟩

instance roleless_leafIf (k : Kind) (c : Token → Bool) : Roleless (leafIf k c) := by
  refine ⟨fun h hts => ?_⟩
  obtain ⟨t, rfl, rfl, -⟩ := exists_of_run_leafIf h
  obtain ⟨ht, hrest⟩ := List.forall_mem_cons.mp hts
  exact ⟨ht.roleless_leaf k, hrest⟩

instance roleless_anyToken : Roleless anyToken := roleless_leafIf _ _

instance roleless_markAs (k : Kind) (m : String) : Roleless (markAs k m) := roleless_leafIf _ _

instance roleless_word (w : String) : Roleless (word w) := roleless_leafIf _ _

/-- A look ahead does not change that a parser gives no roles. -/
lemma roleless_of_peek {x : Parse α} {k : α → Parse Fragment} [hx : Peeks x]
    (hk : ∀ a, Roleless (k a)) : Roleless (x >>= k) := by
  refine ⟨fun h hts => ?_⟩
  obtain ⟨a, mid, hrun, hrest⟩ := run_bind_eq_some h
  obtain rfl := hx.rest_eq hrun
  exact (hk a).roleless hrest hts

instance roleless_peek_bind {x : Parse α} {k : α → Parse Fragment} [Peeks x]
    [hk : ∀ a, Roleless (k a)] : Roleless (x >>= k) :=
  roleless_of_peek hk

instance roleless_ite {c : Prop} [Decidable c] [hp : Roleless p] [hq : Roleless q] :
    Roleless (if c then p else q) := by
  split
  · exact hp
  · exact hq

instance roleless_orElse [hp : Roleless p] [hq : Roleless q] : Roleless (p <|> q) := by
  refine ⟨fun {ts f rest} h hts => ?_⟩
  have hrun : (p.run ts <|> q.run ts) = some (f, rest) := h
  cases hfirst : p.run ts with
  | none => exact hq.roleless (by simpa [hfirst] using hrun) hts
  | some found => exact hp.roleless (by simpa [hfirst] using hrun) hts

instance roleless_bind_append [hp : Roleless p] [hq : Roleless q] :
    Roleless (do let first ← p; return first ++ (← q)) := by
  refine ⟨fun h hts => ?_⟩
  obtain ⟨first, mid, hfirst, h⟩ := run_bind_eq_some h
  obtain ⟨more, rest, hmore, ⟨⟩⟩ := run_bind_eq_some h
  obtain ⟨hfirst, hmid⟩ := hp.roleless hfirst hts
  obtain ⟨hmore, hrest⟩ := hq.roleless hmore hmid
  exact ⟨Fragment.roleless_append hfirst hmore, hrest⟩

instance roleless_row_nil : Roleless (row []) := roleless_nothing

instance roleless_row_cons [Roleless p] [Roleless (row ps)] : Roleless (row (p :: ps)) :=
  roleless_bind_append

instance roleless_upTo [Roleless p] (n : Nat) : Roleless (upTo p n) := by
  induction n with
  | zero => exact roleless_nothing
  | succ n ih => rw [upTo]; infer_instance

instance roleless_repeated [Roleless p] : Roleless (repeated p) := by
  unfold repeated; infer_instance

instance roleless_ifMark {m : String} [Roleless p] : Roleless (ifMark m p) := by
  unfold ifMark; infer_instance

/-- A node is in no role, whatever its parts are. -/
instance roleless_node {k : Kind} [Adds [] p] [AllAdd ps] : Roleless (node k (p :: ps)) := by
  refine ⟨fun h hts => ?_⟩
  obtain ⟨f, rest, hrun, ⟨⟩⟩ := run_bind_eq_some h
  obtain ⟨taken, rfl, -, hf⟩ := Adds.exists_taken hrun Fragment.wellFormed_nil hts
  exact ⟨hf.roleless_close k, fun t ht => hts t (List.mem_append_right taken ht)⟩

/-- A word that is taken as a name is a name, whatever follows. -/
instance names_name : Names (role .name name :: ps) := by
  refine ⟨fun h hts => ?_⟩
  obtain ⟨first, mid, hfirst, h⟩ := run_bind_eq_some h
  obtain ⟨more, rest, -, ⟨⟩⟩ := run_bind_eq_some h
  obtain ⟨f, rest, hleaf, ⟨⟩⟩ := run_bind_eq_some hfirst
  obtain ⟨t, rfl, rfl, hword⟩ := exists_of_run_leafIf hleaf
  exact (hts t List.mem_cons_self).named_leaf (by simpa using hword) more

/-- What is in no role may stand before the name. -/
instance (priority := low) names_cons [hp : Roleless p] [hps : Names ps] : Names (p :: ps) := by
  refine ⟨fun h hts => ?_⟩
  obtain ⟨first, mid, hfirst, h⟩ := run_bind_eq_some h
  obtain ⟨more, rest, hmore, ⟨⟩⟩ := run_bind_eq_some h
  obtain ⟨hfirst, hmid⟩ := hp.roleless hfirst hts
  exact (Fragment.named_append_iff hfirst).mpr (hps.named hmore hmid)

/-- A declaration whose name is taken from the page. -/
instance (priority := low) adds_node_of_names {k : Kind} [Adds base p] [AllAdd ps]
    [hnames : Names (p :: ps)] : Adds base (node k (p :: ps)) := by
  refine ⟨fun h hbase hts => ?_⟩
  obtain ⟨f, rest, hrun, ⟨⟩⟩ := run_bind_eq_some h
  obtain ⟨taken, rfl, hleaves, hf⟩ := Adds.exists_taken hrun hbase hts
  refine ⟨taken, rfl, ?_, hf.close fun _ => hnames.named hrun hts⟩
  rw [Fragment.leaves_close, hleaves]

/-- A parser goes on from what one gave that is in no role. -/
lemma adds_bind_of_roleless {k : Fragment → Parse Fragment} [hp : Adds [] p] [hr : Roleless p]
    (hk : ∀ f, f.Roleless → Adds f (k f)) : Adds [] (p >>= k) := by
  refine ⟨fun h hbase hts => ?_⟩
  obtain ⟨f, mid, hrun, hrest⟩ := run_bind_eq_some h
  obtain ⟨hroleless, hmid⟩ := hr.roleless hrun hts
  obtain ⟨taken, rfl, hleaves, hf⟩ := hp.exists_taken hrun hbase hts
  obtain ⟨more, rfl, hmore, hg⟩ := (hk f hroleless).exists_taken hrest hf hmid
  exact ⟨taken ++ more, by simp, by simp [hmore, hleaves], hg⟩

end Parse

/-- The two rules that the grammar leads back to give just the tokens that they took. -/
class Rules.Lossless (r : Rules) : Prop where
  adds_expression : ∀ level, Parse.Adds [] (r.expression level)
  adds_statement : Parse.Adds [] r.statement

attribute [instance] Rules.Lossless.adds_expression Rules.Lossless.adds_statement

end PhpCalls.Syntax
