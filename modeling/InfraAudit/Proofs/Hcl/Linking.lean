import InfraAudit.Proofs.Hcl.Enclosure
import InfraAudit.Proofs.Hcl.Inversion
import InfraAudit.Proofs.Hcl.Numbering

/-!
# InfraAudit.Proofs.Hcl.Linking — reading into linked blocks

The reader of files nests finished blocks in open ones.  The reader here makes the same steps on an assembly: a block
gets its number and its parent when its opening line is read, and is added to the children of its parent when its
closing brace is read.

* `item`: the action that the next tokens ask for; `step_eq_act`: a step reads one item and acts.
* `Linking.act`, `Linking.run`, `link`: the actions on an assembly, all items, and a whole text.
* `act_of`: on the assembly of what has been read, every action does what it does to the nested blocks.
* `link_eq`: the linked blocks of a text are the assembly of its forest, and the failures are the same.
* `traversal_dual`: in the linked blocks of a text, the walks and the blocks around are dual.
-/

namespace InfraAudit.Hcl

namespace Document

/-! ### Items and actions -/

/-- What an item asks of the reader. -/
inductive Action
  | skip
  | define (place : Position) (a : Attribute)
  | open (kind : String) (labels : List String) (lines : SourceRange)
  | close (place : Position)

/-- The action of the item whose first token is `t`, and the tokens after the item. -/
def item (filename : String) (finish : Position) (t : PlacedToken) (ts : List PlacedToken) :
    Except Failure (Action × List PlacedToken) :=
  match t.token with
  | .newline => .ok (.skip, ts)
  | .closing .curly => .ok (.close t.start, ts)
  | .identifier name =>
    match ts with
    | ⟨.equals, _, _⟩ :: expr => do
      let (a, rest) ← definition filename finish name t.start.line expr
      return (.define t.start a, rest)
    | _ =>
      if (next? ts).any startsBlock then do
        let (names, rest) ← header finish name ts
        let lines ← range filename t.start.line t.start.line
        return (.open name names lines, rest)
      else .error (.badSyntax (placeOf finish ts) (.expectedDefinition name (next? ts)))
  | other => .error (.badSyntax t.start (.expectedItem (some other)))

/-- The action on nested blocks. -/
def Progress.act (σ : Progress) : Action → Except Failure Progress
  | .skip => .ok σ
  | .define place a => σ.addAttribute place a
  | .open kind labels lines => .ok { σ with unclosed := ⟨kind, labels, lines, [], []⟩ :: σ.unclosed }
  | .close place =>
    match σ.unclosed with
    | [] => .error (.badSyntax place (.unexpectedClosing .curly))
    | o :: outer => do
      let b ← o.close place.line
      return { σ with unclosed := outer }.addBlock b

section Items

variable {filename : String} {finish : Position} {t : PlacedToken} {ts rest : List PlacedToken} {x : Action}

/-- A step of the reader reads an item and acts. -/
theorem step_eq_act (σ : Progress) :
    step filename finish σ t ts =
      item filename finish t ts >>= fun (x, rest) => (σ.act x).map fun σ' => (σ', rest) := by
  cases hk : t.token with
  | closing b =>
    cases b with
    | curly =>
      simp only [step, item, hk, Progress.act]
      cases σ.unclosed with
      | nil => rfl
      | cons o outer => cases h : o.close t.start.line <;> simp [h, bind, Except.bind, Except.map, pure, Except.pure]
    | _ =>
      simp only [step, item, hk]
      rfl
  | identifier name =>
    by_cases hequals : ∃ p n expr, ts = ⟨.equals, p, n⟩ :: expr
    · obtain ⟨p, n, expr, rfl⟩ := hequals
      simp only [step, item, hk]
      cases definition filename finish name t.start.line expr with
      | error e => rfl
      | ok x =>
        cases h : σ.addAttribute t.start x.1 <;>
          simp [h, Progress.act, bind, Except.bind, Except.map, pure, Except.pure]
    · have hne (p : Position) (n : Nat) (expr : List PlacedToken) : ts ≠ ⟨.equals, p, n⟩ :: expr :=
        fun he => hequals ⟨p, n, expr, he⟩
      simp only [step, item, hk]
      split
      · cases header finish name ts with
        | error e => rfl
        | ok x => cases range filename t.start.line t.start.line <;> rfl
      · rfl
  | _ =>
    simp only [step, item, hk]
    rfl

theorem item_rest_le (h : item filename finish t ts = .ok (x, rest)) : rest.length ≤ ts.length := by
  unfold item at h
  split at h
  · cases h
    exact Nat.le_refl _
  · cases h
    exact Nat.le_refl _
  · split at h
    · obtain ⟨⟨a, rest⟩, hd, h⟩ := eq_ok_of_bind h
      cases h
      exact Nat.le_succ_of_le (definition_rest_le hd)
    · split at h
      · obtain ⟨⟨names, rest⟩, hh, h⟩ := eq_ok_of_bind h
        obtain ⟨lines, -, h⟩ := eq_ok_of_bind h
        cases h
        exact header_rest_le hh
      · cases h
  · cases h

end Items

end Document

/-! ### Actions on an assembly -/

open Document (Action item Progress OpenBlock)

/-- Why a text is not read into linked blocks: a failure of the reader, or a step that the assembly refuses. -/
inductive LinkError
  | failure (e : Failure)
  | refused (e : AssemblyError)

/-- The failure of an impossible range is the reader's. -/
def LinkError.ofAssembly : AssemblyError → LinkError
  | .badRange e => .failure (.badRange e)
  | e => .refused e

/-- What has been read: the blocks so far, the numbers of the open ones, innermost first, those of the finished
top-level blocks, and the warnings. -/
structure Linking where
  tree : Assembly
  unclosed : List Nat
  done : List Nat
  warnings : List Warning

namespace Linking

/-- Nothing has been read. -/
def start : Linking := ⟨.empty, [], [], []⟩

/-- The action on an assembly.  A block names its parent from the beginning; it becomes a child, or one of the
top-level blocks, when it is closed. -/
def act (l : Linking) : Action → Except LinkError Linking
  | .skip => .ok l
  | .define place a =>
    match l.unclosed with
    | [] => .ok { l with warnings := l.warnings ++ [.topLevelAttribute a.range.filename a.range.startLine a.name] }
    | n :: _ =>
      match (l.tree.parts[n]?).bind fun p => p.attributes.find? (·.name == a.name) with
      | some previous => .error (.failure (.badSyntax place (.redefined a.name previous.range.startLine)))
      | none => .ok { l with tree := l.tree.define n a }
  | .open kind labels lines =>
    let (tree, n) := l.tree.create kind labels lines l.unclosed.head?
    .ok { l with tree, unclosed := n :: l.unclosed }
  | .close place =>
    match l.unclosed with
    | [] => .error (.failure (.badSyntax place (.unexpectedClosing .curly)))
    | [n] => do
      let tree ← (l.tree.close n place.line).mapError .ofAssembly
      return { l with tree, unclosed := [], done := l.done ++ [n] }
    | n :: m :: outer => do
      let closed ← (l.tree.close n place.line).mapError .ofAssembly
      let tree ← (closed.adopt m n).mapError .ofAssembly
      return { l with tree, unclosed := m :: outer }

/-- The blocks and the numbers of the top-level ones, if no block is open. -/
def finish (place : Position) (l : Linking) : Except LinkError (Assembly × List Nat) :=
  match l.unclosed with
  | [] => .ok (l.tree, l.done)
  | n :: _ =>
    match l.tree.parts[n]? with
    | none => .error (.refused .unknownBlock)
    | some p => .error (.failure (.badSyntax place (.unclosedBlock (dottedName p.kind p.labels) p.range.startLine)))

/-- All items. -/
def run (filename : String) (place : Position) (l : Linking) :
    List PlacedToken → Logged (Except LinkError (Assembly × List Nat))
  | [] => ⟨l.warnings, l.finish place⟩
  | t :: ts =>
    match _h : item filename place t ts with
    | .error e => ⟨l.warnings, .error (.failure e)⟩
    | .ok (x, rest) =>
      match l.act x with
      | .error e => ⟨l.warnings, .error e⟩
      | .ok l' => run filename place l' rest
termination_by ts => ts.length
decreasing_by exact Nat.lt_succ_of_le (Document.item_rest_le _h)

end Linking

/-- The linked blocks of a text and the numbers of the top-level ones. -/
def link (filename source : String) : Logged (Except LinkError (Assembly × List Nat)) :=
  match lex source with
  | .error e => ⟨[], .error (.failure e)⟩
  | .ok x => Linking.run filename x.finish .start x.tokens

/-! ### What has been read as an assembly -/

/-- The block as it is so far. -/
def Document.OpenBlock.soFar (o : OpenBlock) : Block :=
  ⟨o.kind, o.labels, o.range, o.attributes, o.children⟩

/-- The parts of finished and open blocks, and the numbers of the open ones, innermost first. -/
def numbered (done : List Block) : List OpenBlock → List Part × List Nat
  | [] => (Block.partsAll none 0 done, [])
  | o :: outer =>
    let (ps, ns) := numbered done outer
    (ps ++ o.soFar.parts ns.head? ps.length, ps.length :: ns)

/-- The linked form of what has been read into nested blocks. -/
def Linking.of (σ : Progress) : Linking :=
  ⟨⟨(numbered σ.done σ.unclosed).1⟩, (numbered σ.done σ.unclosed).2, Block.numbers 0 σ.done, σ.warnings⟩

/-- The linked form of a result. -/
def linked {α β : Type} (f : α → β) (x : Except Failure α) : Except LinkError β :=
  (x.mapError LinkError.failure).map f

section Simulation

variable {ps qs : List Part} {p : Part} {ns : List Nat} {o : OpenBlock} {line : Nat}

theorem getElem?_length : (ps ++ p :: qs)[ps.length]? = some p := by
  rw [List.getElem?_append_right (Nat.le_refl _), Nat.sub_self]
  rfl

theorem modify_length (f : Part → Part) : (ps ++ p :: qs).modify ps.length f = ps ++ f p :: qs :=
  List.modifyTailIdx_add (List.modifyHead f) 0 ps (p :: qs)

theorem putAttribute_of_find? {a : Attribute} {as : List Attribute} (h : as.find? (·.name == a.name) = none) :
    putAttribute a as = as ++ [a] := by
  induction as with
  | nil => rfl
  | cons b as ih =>
    rw [List.find?_cons] at h
    split at h
    · cases h
    · next hb => simp [putAttribute, hb, ih h]

/-- Closing the block whose parts come last closes the nested block. -/
theorem close_soFar {parent : Option Nat} {n : Nat} (hn : n = ps.length) :
    ((⟨ps ++ o.soFar.parts parent n⟩ : Assembly).close n line).mapError LinkError.ofAssembly =
      linked (fun b => ⟨ps ++ b.parts parent n⟩) (o.close line) := by
  subst hn
  rw [Block.parts_eq, Assembly.close]
  simp only [getElem?_length, OpenBlock.close]
  cases hr : o.range.close? line with
  | error e => simp [Block.part, OpenBlock.soFar, hr, linked, Except.mapError, Except.map, bind, Except.bind,
      LinkError.ofAssembly]
  | ok r =>
    simp [Block.part, OpenBlock.soFar, hr, linked, Except.mapError, Except.map, bind, Except.bind, pure,
      Except.pure, Assembly.update, modify_length, Block.parts_eq]

/-- Adopting the finished block whose parts come last adds it to the children of the open one before it. -/
theorem adopt_soFar {parent : Option Nat} {m n : Nat} {b : Block} (hm : m = ps.length)
    (hn : n = (ps ++ o.soFar.parts parent m).length) :
    (⟨ps ++ o.soFar.parts parent m ++ b.parts (some m) n⟩ : Assembly).adopt m n =
      .ok ⟨ps ++ Block.parts parent m (OpenBlock.soFar { o with children := o.children ++ [b] })⟩ := by
  have hchild : (ps ++ o.soFar.parts parent m ++ b.parts (some m) n)[n]? = some (b.part (some m) n) := by
    rw [Block.parts_eq b, hn, getElem?_length]
  have hparent : (ps ++ o.soFar.parts parent m ++ b.parts (some m) n)[m]? = some (o.soFar.part parent m) := by
    rw [Block.parts_eq o.soFar, List.append_assoc, hm, List.cons_append, getElem?_length]
  have hlen : n = m + 1 + (Block.walkAll o.children).length := by
    rw [hn, List.length_append, Block.length_parts, Block.length_walk, hm]
    show ps.length + ((Block.walkAll o.children).length + 1) = _
    omega
  rw [Assembly.adopt]
  simp only [hparent, hchild, Block.part, if_true, Assembly.update]
  rw [Block.parts_eq o.soFar, List.append_assoc, hm, List.cons_append, modify_length, ← hm,
    Block.parts_eq (OpenBlock.soFar _)]
  simp only [OpenBlock.soFar, Block.part, Block.numbers_append, Block.partsAll_append, Block.numbers,
    Block.partsAll, List.append_nil, ← hlen]

namespace Linking

open Assembly (ofForest)

/-- On the linked form every action does what it does to the nested blocks. -/
theorem act_of (σ : Progress) (x : Action) : (of σ).act x = linked of (σ.act x) := by
  obtain ⟨unclosed, done, warnings⟩ := σ
  cases x with
  | skip => rfl
  | define place a =>
    cases unclosed with
    | nil => rfl
    | cons o outer =>
      simp only [act, of, numbered, Block.parts_eq, getElem?_length, Option.bind_some, Progress.act,
        Progress.addAttribute]
      show (match o.attributes.find? (·.name == a.name) with
        | some previous => _
        | none => _) = linked of (match o.attributes.find? (·.name == a.name) with
        | some previous => _
        | none => _)
      cases h : o.attributes.find? (·.name == a.name) with
      | some previous => rfl
      | none =>
        simp only [Assembly.define, Assembly.update, modify_length, Block.part, OpenBlock.soFar,
          putAttribute_of_find? h]
        rfl
  | «open» kind labels lines => rfl
  | close place =>
    cases unclosed with
    | nil => rfl
    | cons o outer =>
      cases outer with
      | nil =>
        simp only [act, of, numbered, Progress.act, close_soFar rfl]
        cases o.close place.line with
        | error e => rfl
        | ok b =>
          simp [linked, Except.mapError, Except.map, bind, Except.bind, pure, Except.pure, Progress.addBlock, of,
            numbered, Block.partsAll_append, Block.partsAll, Block.numbers_append, Block.numbers,
            Block.length_partsAll]
      | cons o' outer =>
        simp only [act, of, numbered, Progress.act, close_soFar rfl]
        cases o.close place.line with
        | error e => rfl
        | ok b =>
          have ha := @adopt_soFar (numbered done outer).1 o' (numbered done outer).2.head? _ _ b rfl rfl
          simp only [linked, Except.mapError, Except.map, bind, Except.bind, List.head?_cons, ha]
          rfl

theorem finish_of (σ : Progress) (place : Position) :
    (of σ).finish place = linked (fun bs => (ofForest bs, Block.numbers 0 bs)) (σ.finish place) := by
  obtain ⟨unclosed, done, warnings⟩ := σ
  cases unclosed with
  | nil => rfl
  | cons o outer =>
    simp only [finish, of, numbered, Block.parts_eq, getElem?_length]
    rfl

/-- All items are read into the linked form of what they are read into otherwise. -/
theorem run_of (filename : String) (place : Position) (σ : Progress) (ts : List PlacedToken) :
    run filename place (of σ) ts =
      ⟨(Document.run filename place σ ts).warnings,
        linked (fun bs => (ofForest bs, Block.numbers 0 bs)) (Document.run filename place σ ts).outcome⟩ := by
  induction hk : ts.length using Nat.strongRecOn generalizing σ ts with
  | ind k ih =>
    cases ts with
    | nil =>
      rw [run, Document.run, finish_of]
      rfl
    | cons t ts =>
      have hstep := @Document.step_eq_act filename place t ts σ
      rw [run]
      split
      · next e he =>
        rw [he] at hstep
        rw [Document.run_of_error hstep]
        rfl
      · next x rest he =>
        rw [he] at hstep
        rw [act_of]
        cases hact : σ.act x with
        | error e =>
          simp only [bind, Except.bind, hact, Except.map] at hstep
          rw [Document.run_of_error hstep]
          rfl
        | ok σ' =>
          simp only [bind, Except.bind, hact, Except.map] at hstep
          rw [Document.run_of_step (Document.step_inv hstep)]
          subst hk
          exact ih _ (Nat.lt_succ_of_le (Document.item_rest_le he)) σ' rest rfl

end Linking

/-- The linked blocks of a text are the assembly of the forest that it is read as. -/
theorem link_eq (filename source : String) :
    link filename source =
      ⟨(Document.parse filename source).warnings,
        linked (fun d => (Assembly.ofForest d.blocks, Block.numbers 0 d.blocks))
          (Document.parse filename source).outcome⟩ := by
  unfold link Document.parse
  cases lex source with
  | error e => rfl
  | ok x =>
    have h := Linking.run_of filename x.finish .start x.tokens
    have hstart : Linking.of .start = Linking.start := rfl
    rw [hstart] at h
    simp only [h]
    cases (Document.run filename x.finish .start x.tokens).outcome <;> rfl

end Simulation

/-! ### Order of opening -/

mutual

/-- The blocks in a block start one after the other, in its lines. -/
theorem startLines_walk (b : Block) (h : ∀ x ∈ b.walk, x.Encloses) :
    (b.walk.Pairwise fun x y => x.range.startLine ≤ y.range.startLine) ∧
      ∀ x ∈ b.walk, b.range.startLine ≤ x.range.startLine ∧ x.range.startLine ≤ b.range.endLine := by
  have he : b.Encloses := h b (Block.mem_walk_self b)
  obtain ⟨kind, labels, lines, attributes, children⟩ := b
  rw [Block.walk] at h ⊢
  have hchildren : ∀ c ∈ children, lines.startLine ≤ c.range.startLine ∧ c.range.endLine ≤ lines.endLine := by
    intro c hc
    obtain ⟨-, h1, -, h2⟩ := he.children c hc
    exact ⟨h1, h2⟩
  obtain ⟨hp, hx⟩ := startLines_walkAll children (fun x hx => h x (List.mem_cons_of_mem _ hx)) hchildren he.inOrder
  refine ⟨.cons (fun y hy => (hx y hy).1) hp, fun x hmem => ?_⟩
  rcases List.mem_cons.1 hmem with rfl | hmem
  · exact ⟨Nat.le_refl _, lines.start_le_end⟩
  · exact hx x hmem

theorem startLines_walkAll {first last : Nat} (bs : List Block) (h : ∀ x ∈ Block.walkAll bs, x.Encloses)
    (hbs : ∀ b ∈ bs, first ≤ b.range.startLine ∧ b.range.endLine ≤ last)
    (ho : bs.Pairwise fun b b' => b.range.endLine ≤ b'.range.startLine) :
    ((Block.walkAll bs).Pairwise fun x y => x.range.startLine ≤ y.range.startLine) ∧
      ∀ x ∈ Block.walkAll bs, first ≤ x.range.startLine ∧ x.range.startLine ≤ last := by
  cases bs with
  | nil => exact ⟨.nil, by simp [Block.walkAll]⟩
  | cons b bs =>
    obtain ⟨hfirst, hlast⟩ := hbs b List.mem_cons_self
    obtain ⟨hb, ho⟩ := List.pairwise_cons.1 ho
    rw [Block.walkAll] at h ⊢
    obtain ⟨hp, hx⟩ := startLines_walk b fun x hx => h x (List.mem_append_left _ hx)
    -- what follows the block starts no earlier than its last line
    have hrest : ∀ b' ∈ bs, b.range.endLine ≤ b'.range.startLine ∧ b'.range.endLine ≤ last := fun b' hmem =>
      ⟨hb b' hmem, (hbs b' (List.mem_cons_of_mem _ hmem)).2⟩
    obtain ⟨hp', hy⟩ := startLines_walkAll bs (fun x hx => h x (List.mem_append_right _ hx)) hrest ho
    refine ⟨List.pairwise_append.2 ⟨hp, hp', fun x hmem y hmem' => ?_⟩, fun x hmem => ?_⟩
    · exact Nat.le_trans (hx x hmem).2 (hy y hmem').1
    · have hle := b.range.start_le_end
      rcases List.mem_append.1 hmem with hmem | hmem
      · have := hx x hmem
        omega
      · have := hy x hmem
        omega

end

/-! ### Whole files -/

section Files

variable {filename source : String} {d : Document}

/-- A text that is read can be read into linked blocks, in which traversal and ancestry are dual and which stand for
the forest of the text.  The walk over the forest goes along the lines, and a place is within the blocks whose walk
properly contains it. -/
theorem traversal_dual (h : (Document.parse filename source).outcome = .ok d) :
    ∃ (σ : Assembly) (tops : List Nat), (link filename source).outcome = .ok (σ, tops) ∧ σ.Dual tops ∧
      σ.Represents tops d.blocks ∧
      ((Block.walkAll d.blocks).Pairwise fun b b' => b.range.startLine ≤ b'.range.startLine) ∧
      ∀ (c : Nat) (s : Site), (sites d.blocks)[c]? = some s → ∀ (kind : String) (label : Option String),
        s.isWithin kind label = true ↔
          ∃ (b : Nat) (x : Block), σ.block? b = some x ∧ c ∈ σ.walk b ∧ c ≠ b ∧ x.kind = kind ∧
            ∀ l ∈ label, x.typeLabel? = some l := by
  have hdual := Assembly.dual_ofForest d.blocks
  have hrepresents := Assembly.represents_ofForest d.blocks
  refine ⟨Assembly.ofForest d.blocks, Block.numbers 0 d.blocks, ?_, hdual, hrepresents, ?_, ?_⟩
  · rw [link_eq, h]
    rfl
  · obtain ⟨as, ha⟩ := Document.arranged_of_parse h
    have hlines : ∀ b ∈ d.blocks, 1 ≤ b.range.startLine ∧ b.range.endLine ≤ 1 + source.toList.count '\n' := by
      intro b hb
      obtain ⟨-, h1, -, h2⟩ := (ha.walk b (Block.mem_walkAll hb)).1
      exact ⟨h1, h2⟩
    exact (startLines_walkAll d.blocks (fun x hx => (ha.walk x hx).2.2) hlines ha.inOrder).1
  · intro c s hs kind label
    exact hrepresents.isWithin_iff hdual hs kind label

/-- Two equal blocks on one line, in a block that is followed by another. -/
theorem traversal_dual_siblings :
    ∃ d, (Document.parse "m.tf" "a \"l\" \x7b\n b \x7b\x7d b \x7b\x7d\n\x7d\na \x7b\x7d").outcome = .ok d ∧
      ∃ σ, (link "m.tf" "a \"l\" \x7b\n b \x7b\x7d b \x7b\x7d\n\x7d\na \x7b\x7d").outcome = .ok (σ, [0, 3]) ∧
        σ.walk 0 = [0, 1, 2] ∧ σ.above 2 = [0] ∧ σ.Dual [0, 3] ∧ σ.Represents [0, 3] d.blocks ∧
        ∃ s, (sites d.blocks)[2]? = some s ∧ s.isWithin "a" (some "l") = true := by
  let text := "a \"l\" \x7b\n b \x7b\x7d b \x7b\x7d\n\x7d\na \x7b\x7d"
  let seen (_ : List Warning) (x : Assembly × List Nat) : List (List Nat) × Option (String × List String) :=
    ([x.2, x.1.walk 0, x.1.above 2], (x.1.block? 0).map fun b => (b.kind, b.labels))
  obtain ⟨_, ⟨σ, tops⟩, hl, hseen⟩ := Logged.ok_of_map (o := link "m.tf" text) (g := seen)
    (b := ([[0, 3], [0, 1, 2], [0]], some ("a", ["l"]))) (by decide +kernel)
  obtain ⟨hlists, hblock⟩ := Prod.mk.inj hseen
  obtain ⟨rfl, hwalk, habove⟩ : tops = [0, 3] ∧ σ.walk 0 = [0, 1, 2] ∧ σ.above 2 = [0] := by simpa using hlists
  obtain ⟨x, hx, hnames⟩ := Option.map_eq_some_iff.1 hblock
  obtain ⟨hkind, hlabels⟩ := Prod.mk.inj hnames
  have hlink := congrArg Logged.outcome hl
  obtain ⟨_, d, hp, hlength⟩ := Logged.ok_of_map (o := Document.parse "m.tf" text)
    (g := fun _ d => (sites d.blocks).length) (b := 4) (by decide +kernel)
  have hd := congrArg Logged.outcome hp
  obtain ⟨σ', tops', hlink', hdual, hrepresents, -, hwithin⟩ := traversal_dual hd
  cases hlink.symm.trans hlink'
  have hs := List.getElem?_eq_getElem (show 2 < (sites d.blocks).length by omega)
  refine ⟨d, hd, σ, hlink, hwalk, habove, hdual, hrepresents, _, hs, ?_⟩
  refine (hwithin 2 _ hs "a" (some "l")).2 ⟨0, x, hx, ?_, by decide, hkind, ?_⟩
  · rw [hwalk]
    decide
  · rintro l ⟨⟩
    rw [Block.typeLabel?, hlabels]
    rfl

end Files

end InfraAudit.Hcl
