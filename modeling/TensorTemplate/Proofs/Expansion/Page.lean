import TensorTemplate.Journal
import TensorTemplate.Proofs.Temporaries

/-!
The page of a frame: the lines of its buffer as the journal of a run tells them,
each with what it is there for. Lines that declare temporaries stand at the
boundary, the others at the end.
-/

namespace TensorTemplate

/-- What a line of a buffer is there for. -/
inductive Origin where
  /-- It was in the buffer when the frame was opened. -/
  | given
  /-- It expands a line of the frame. Rules had returned the names of these temporaries by then, and
  the flag tells whether a boundary had been set. -/
  | written (returned : List Temporary) (covered : Bool)
  /-- It was taken over from a nested template. -/
  | merged
  /-- It declares the temporary of this name. -/
  | declared (name : String)

/-- The name that the line declares. -/
def Origin.declares? : Origin → Option String
  | declared name => some name
  | _ => none

/-- A line and what it is there for. -/
abbrev Row := Origin × String

/-- What the journal tells of a frame. Rows are listed the latest first. -/
structure Page where
  style : LineStyle := {}
  /-- The rows ahead of the boundary. -/
  ahead : List Row := []
  /-- The rows behind the boundary. -/
  behind : List Row := []
  /-- The temporaries whose names rules have returned while the frame was on top. -/
  returned : List Temporary := []
  /-- Whether the template has set a boundary. -/
  bounded : Bool := false

/-- The declarations of what is held, each with its name. -/
def Held.texts (b : Backend) (pattern : String) (h : Held) : List (String × String) :=
  h.lambdas.map (fun r => (r.name, r.declare b)) ++
    h.declarations.map (fun d => (d.name, d.instantiate pattern))

theorem Held.map_fst_texts (b : Backend) (pattern : String) (h : Held) :
    (h.texts b pattern).map (·.1) = h.names := by
  simp [texts, names, Function.comp_def]

namespace Page

/-- The rows from first to last. -/
def lines (p : Page) : List Row := p.ahead.reverse ++ p.behind.reverse

/-- The names that the lines declare, one for each line that declares something. -/
def declared (p : Page) : List String := p.lines.filterMap (·.1.declares?)

/-- The rows of a text. -/
def rowsOf (style : LineStyle) (origin : Origin) (text : String) : List Row :=
  (style.applyAll text).map (origin, ·)

/-- The page after an event of its frame. -/
def after (b : Backend) (p : Page) : FrameEvent → Page
  | .opened buffer =>
    { style := buffer.style
      ahead := buffer.ahead.map (.given, ·)
      behind := buffer.behind.map (.given, ·) }
  | .named symbols => { p with returned := symbols.map .symbol ++ p.returned }
  | .called record => { p with returned := .lambda record :: p.returned }
  | .bounded _ => { p with ahead := p.behind ++ p.ahead, behind := [], bounded := true }
  | .boundedAtStart => { p with ahead := [], behind := p.behind ++ p.ahead }
  | .declares pattern lambdas declarations =>
    let texts := Held.texts b pattern ⟨lambdas, declarations⟩
    let rows := texts.flatMap fun t => rowsOf p.style (.declared t.1) (Segment.shown t.2)
    { p with ahead := rows.reverse ++ p.ahead }
  | .wrote text =>
    { p with behind := (rowsOf p.style (.written p.returned p.bounded) text).reverse ++ p.behind }
  | .merged lines => { p with behind := (lines.map (.merged, ·)).reverse ++ p.behind }
  | .closed _ => p

end Page

/-- What the journal tells of the frame with this number. -/
def Journal.page (b : Backend) (id : Nat) : Journal → Page
  | [] => {}
  | (id', event) :: journal =>
    if id' = id then (page b id journal).after b event else page b id journal

namespace Page

theorem page_cons_self (b : Backend) (id : Nat) (event : FrameEvent) (journal : Journal) :
    Journal.page b id ((id, event) :: journal) = (Journal.page b id journal).after b event := by
  simp [Journal.page]

theorem page_cons_of_ne (b : Backend) {id id' : Nat} (h : id' ≠ id) (event : FrameEvent)
    (journal : Journal) :
    Journal.page b id ((id', event) :: journal) = Journal.page b id journal := by
  simp [Journal.page, h]

theorem page_cons_closed (b : Backend) (id' : Nat) (buffer : Buffer) (journal : Journal)
    (id : Nat) :
    Journal.page b id ((id', .closed buffer) :: journal) = Journal.page b id journal := by
  by_cases h : id' = id
  · subst h
    rw [page_cons_self]
    rfl
  · exact page_cons_of_ne b h _ _

theorem page_eq_empty (b : Backend) {id : Nat} {journal : Journal} (h : ∀ e ∈ journal, e.1 ≠ id) :
    Journal.page b id journal = {} := by
  induction journal with
  | nil => rfl
  | cons e journal ih =>
      rw [page_cons_of_ne b (h e List.mem_cons_self)]
      exact ih fun e' he' => h e' (List.mem_cons_of_mem _ he')

/-! ### Declaring rows -/

theorem declared_eq (p : Page) :
    p.declared =
      (p.ahead.filterMap (·.1.declares?)).reverse ++
        (p.behind.filterMap (·.1.declares?)).reverse := by
  simp [declared, lines]

theorem fst_of_mem_rowsOf {style : LineStyle} {origin : Origin} {text : String} {row : Row}
    (h : row ∈ rowsOf style origin text) : row.1 = origin := by
  obtain ⟨line, _, rfl⟩ := List.mem_map.1 h
  rfl

theorem filterMap_rowsOf {style : LineStyle} {origin : Origin} (h : origin.declares? = none)
    (text : String) : (rowsOf style origin text).filterMap (·.1.declares?) = [] := by
  simp [rowsOf, List.filterMap_map, h]

@[simp]
theorem declared_after_wrote (b : Backend) (p : Page) (text : String) :
    (p.after b (.wrote text)).declared = p.declared := by
  have hrows := @filterMap_rowsOf p.style (.written p.returned p.bounded) rfl text
  simp only [declared_eq, after, List.filterMap_append, List.filterMap_reverse, hrows]
  rfl

@[simp]
theorem declared_after_merged (b : Backend) (p : Page) (lines : List String) :
    (p.after b (.merged lines)).declared = p.declared := by
  simp [declared_eq, after, List.filterMap_map, Origin.declares?]

@[simp]
theorem declared_after_bounded (b : Backend) (p : Page) (pattern : String) :
    (p.after b (.bounded pattern)).declared = p.declared := by
  simp [declared_eq, after]

@[simp]
theorem declared_after_boundedAtStart (b : Backend) (p : Page) :
    (p.after b .boundedAtStart).declared = p.declared := by
  simp [declared_eq, after]

/-- Declarations that are plain lines make one row each. -/
theorem filterMap_declares?_rows (style : LineStyle) {texts : List (String × String)}
    (h : ∀ t ∈ texts, Segment.PlainLine t.2) :
    (texts.flatMap fun t => rowsOf style (.declared t.1) (Segment.shown t.2)).filterMap
      (·.1.declares?) = texts.map (·.1) := by
  induction texts with
  | nil => rfl
  | cons t texts ih =>
      obtain ⟨row, hrow⟩ := (h t List.mem_cons_self).applyAll_shown style
      rw [List.flatMap_cons, List.filterMap_append, ih fun u hu => h u (List.mem_cons_of_mem _ hu)]
      simp [rowsOf, hrow, Origin.declares?]

theorem map_snd_rows (style : LineStyle) (texts : List (String × String)) :
    (texts.flatMap fun t => rowsOf style (.declared t.1) (Segment.shown t.2)).map (·.2) =
      texts.flatMap fun t => style.applyAll (Segment.shown t.2) := by
  simp [List.map_flatMap, rowsOf, Function.comp_def]

/-- A deposit declares what was held and what waited, each once. -/
theorem declared_after_declares_perm (b : Backend) (p : Page) {pattern : String} {h : Held}
    (hlines : ∀ t ∈ h.texts b pattern, Segment.PlainLine t.2) :
    (p.after b (.declares pattern h.lambdas h.declarations)).declared.Perm
      (p.declared ++ h.names) := by
  have hrows := filterMap_declares?_rows p.style hlines
  simp only [declared_eq, after, List.filterMap_append, List.filterMap_reverse, hrows,
    Held.map_fst_texts, List.reverse_append, List.reverse_reverse, List.append_assoc]
  exact List.perm_append_comm.append_left _

end Page

end TensorTemplate
