import AndroidAudit.Yaml.TokenStream
import AndroidAudit.Yaml.Tree

/-!
# From YAML tokens to a document

Each kind of node is found from the tokens at the front, which gives the node and what is left, or the
defect that cuts the document off there.
-/

namespace AndroidAudit.Yaml

/-- What is left of the tokens, with what is known of anchors and tag handles. -/
structure Feed where
  tokens : List Token
  /-- What is wrong behind them. -/
  ending : Option Problem
  /-- The anchors met, with their numbers. -/
  anchors : List (List Char × Nat)
  /-- The tag handles, with what they stand for. -/
  handles : List (List Char × List UInt8)

namespace Feed

/-- What is left behind a node, or why the document is cut off there. -/
abbrev Step := Except Defect Feed

/-- A problem at a mark. -/
def problem (cause : Cause) (mark : Mark) (context : Option (Context × Mark)) : Defect :=
  .problem ⟨cause, .mark mark, context⟩

/-- The next token. -/
def peek (f : Feed) : Except Defect Token :=
  match f.tokens, f.ending with
  | t :: _, _ => .ok t
  | [], some p => .error (.problem p)
  | [], none => .error (problem .endOfText .start none)

/-- The tokens behind the next one. -/
def next (f : Feed) : Feed := { f with tokens := f.tokens.drop 1 }

/-- Gives an anchor the number of anchors known by other names. -/
def define (f : Feed) (name : Option (List Char)) : Option Nat × Feed :=
  match name with
  | none => (none, f)
  | some n =>
    let id := f.anchors.length
    (some id, { f with anchors := (n, id) :: f.anchors.filter (·.1 ≠ n) })

/-! ## What comes before a node -/

/-- The anchor and the tag of a node, where it starts, and the tokens behind them. -/
structure Properties where
  start : Mark
  anchor : Option (List Char)
  /-- Its tag and where that starts. -/
  tag : Option (List Char × List UInt8 × Mark)
  feed : Feed

/-- The anchor and the tag of a node, in either order. -/
def properties (f : Feed) : Except Defect Properties := do
  let t ← f.peek
  match t.kind with
  | .anchor name =>
    let f := f.next
    let u ← f.peek
    match u.kind with
    | .tag handle target =>
      let _ ← f.next.peek
      return ⟨t.start, some name, some (handle, target, u.start), f.next⟩
    | _ => return ⟨t.start, some name, none, f⟩
  | .tag handle target =>
    let f := f.next
    let u ← f.peek
    match u.kind with
    | .anchor name =>
      let _ ← f.next.peek
      return ⟨t.start, some name, some (handle, target, t.start), f.next⟩
    | _ => return ⟨t.start, none, some (handle, target, t.start), f⟩
  | _ => return ⟨t.start, none, none, f⟩

/-- What a tag stands for. -/
def resolveTag (f : Feed) (start : Mark) :
    Option (List Char × List UInt8 × Mark) → Except Defect (Option Tag)
  | none => .ok none
  | some ([], target, _) => .ok (some (Tag.join [] target))
  | some (handle, target, mark) =>
    match f.handles.lookup handle with
    | some base => .ok (some (Tag.join base target))
    | none => .error (problem .unknownHandle mark (some (.node, start)))

/-! ## Nodes -/

mutual

/-- A node: in a block or not, and with or without a list at the column of the key it belongs to. -/
def node : Nat → (block indentless : Bool) → Feed → Tree × Step
  | 0, _, _, f => (.missing, .ok f)
  | fuel + 1, block, indentless, f =>
    match f.peek with
    | .error e => (.missing, .error e)
    | .ok t =>
      match t.kind with
      | .reference name =>
        match f.anchors.lookup name with
        | some id => (.reference t.start id, .ok f.next)
        | none => (.missing, .error (.unknownAnchor t.start))
      | _ =>
        match f.properties with
        | .error e => (.missing, .error e)
        | .ok p =>
          match p.feed.resolveTag p.start p.tag, p.feed.peek with
          | .error e, _ | _, .error e => (.missing, .error e)
          | .ok tag, .ok t =>
            let (id, f) := p.feed.define p.anchor
            let head : Head := ⟨p.start, id, tag⟩
            match t.kind with
            | .scalar text style => (.scalar head text style, .ok f.next)
            | .flowSequenceStart =>
              let (items, step) : List Tree × Step := flowItems fuel true t.start f.next
              (.sequence head items step.isOk, step)
            | .flowMappingStart =>
              let (entries, step) := flowEntries fuel true t.start f.next
              (.mapping head entries step.isOk, step)
            | kind =>
              if indentless && kind == .blockEntry then
                let (items, step) : List Tree × Step := indentlessItems fuel f
                (.sequence head items step.isOk, step)
              else if block && kind == .blockSequenceStart then
                let (items, step) : List Tree × Step := blockItems fuel t.start f.next
                (.sequence head items step.isOk, step)
              else if block && kind == .blockMappingStart then
                let (entries, step) := blockEntries fuel t.start f.next
                (.mapping head entries step.isOk, step)
              else if p.anchor.isSome || tag.isSome then (.scalar head [] .plain, .ok f)
              else (.missing, .error (problem .noNode t.start
                (some (if block then .blockNode else .flowNode, p.start))))

/-- The entries of a list in a block. -/
def blockItems : Nat → Mark → Feed → List Tree × Step
  | 0, _, f => ([], .ok f)
  | fuel + 1, mark, f =>
    match f.peek with
    | .error e => ([], .error e)
    | .ok t =>
      match t.kind with
      | .blockEntry =>
        match f.next.peek with
        | .error e => ([], .error e)
        | .ok u =>
          let (item, step) : Tree × Step := match u.kind with
            | .blockEntry | .blockEnd => (.emptyScalar t.stop, .ok f.next)
            | _ => node fuel true false f.next
          match step with
          | .error e => ([item], .error e)
          | .ok f =>
            let (items, step) : List Tree × Step := blockItems fuel mark f
            (item :: items, step)
      | .blockEnd => ([], .ok f.next)
      | _ => ([], .error (problem .noEntry t.start (some (.blockCollection, mark))))

/-- The entries of a list at the column of the key it belongs to. -/
def indentlessItems : Nat → Feed → List Tree × Step
  | 0, f => ([], .ok f)
  | fuel + 1, f =>
    match f.peek with
    | .error e => ([], .error e)
    | .ok t =>
      match t.kind with
      | .blockEntry =>
        match f.next.peek with
        | .error e => ([], .error e)
        | .ok u =>
          let (item, step) : Tree × Step := match u.kind with
            | .blockEntry | .key | .value | .blockEnd => (.emptyScalar t.stop, .ok f.next)
            | _ => node fuel true false f.next
          match step with
          | .error e => ([item], .error e)
          | .ok f =>
            let (items, step) : List Tree × Step := indentlessItems fuel f
            (item :: items, step)
      | _ => ([], .ok f)

/-- The entries of a mapping in a block. -/
def blockEntries : Nat → Mark → Feed → List (Tree × Tree) × Step
  | 0, _, f => ([], .ok f)
  | fuel + 1, mark, f =>
    match f.peek with
    | .error e => ([], .error e)
    | .ok t =>
      match t.kind with
      | .key =>
        match f.next.peek with
        | .error e => ([], .error e)
        | .ok u =>
          let (key, step) : Tree × Step := match u.kind with
            | .key | .value | .blockEnd => (.emptyScalar t.stop, .ok f.next)
            | _ => node fuel true true f.next
          match step with
          | .error e => ([(key, .missing)], .error e)
          | .ok f =>
            let (value, step) : Tree × Step := blockValue fuel f
            match step with
            | .error e => ([(key, value)], .error e)
            | .ok f =>
              let (entries, step) := blockEntries fuel mark f
              ((key, value) :: entries, step)
      | .blockEnd => ([], .ok f.next)
      | _ => ([], .error (problem .noKey t.start (some (.blockMapping, mark))))

/-- The value of a key in a block. -/
def blockValue : Nat → Feed → Tree × Step
  | 0, f => (.missing, .ok f)
  | fuel + 1, f =>
    match f.peek with
    | .error e => (.missing, .error e)
    | .ok t =>
      match t.kind with
      | .value =>
        match f.next.peek with
        | .error e => (.missing, .error e)
        | .ok u =>
          match u.kind with
          | .key | .value | .blockEnd => (.emptyScalar t.stop, .ok f.next)
          | _ => node fuel true true f.next
      | _ => (.emptyScalar t.start, .ok f)

/-- The items of a list in brackets, from behind the bracket or behind an item. -/
def flowItems : Nat → (first : Bool) → Mark → Feed → List Tree × Step
  | 0, _, _, f => ([], .ok f)
  | fuel + 1, first, mark, f =>
    match f.peek with
    | .error e => ([], .error e)
    | .ok t =>
      if t.kind == .flowSequenceEnd then ([], .ok f.next)
      else if !first && t.kind != .flowEntry then
        ([], .error (problem .noSequenceEnd t.start (some (.flowSequence, mark))))
      else
        let f := if first then f else f.next
        match f.peek with
        | .error e => ([], .error e)
        | .ok t =>
          if t.kind == .flowSequenceEnd then ([], .ok f.next)
          else
            let (item, step) : Tree × Step :=
              if t.kind == .key then flowPair fuel t.start f.next else node fuel false false f
            match step with
            | .error e => ([item], .error e)
            | .ok f =>
              let (items, step) : List Tree × Step := flowItems fuel false mark f
              (item :: items, step)

/-- A mapping of one entry that is an item of a list in brackets, from behind the start of its key. -/
def flowPair : Nat → Mark → Feed → Tree × Step
  | 0, _, f => (.missing, .ok f)
  | fuel + 1, mark, f =>
    let head : Head := ⟨mark, none, none⟩
    match f.peek with
    | .error e => (.mapping head [] false, .error e)
    | .ok t =>
      -- a key that is left out takes the token behind it along
      let (key, step) : Tree × Step := match t.kind with
        | .value | .flowEntry | .flowSequenceEnd => (.emptyScalar t.stop, .ok f.next)
        | _ => node fuel false false f
      match step with
      | .error e => (.mapping head [(key, .missing)] false, .error e)
      | .ok f =>
        let (value, step) : Tree × Step := flowValue fuel .flowSequenceEnd f
        match step with
        | .error e => (.mapping head [(key, value)] false, .error e)
        | .ok f =>
          match f.peek with
          | .error e => (.mapping head [(key, value)] false, .error e)
          | .ok _ => (.mapping head [(key, value)] true, .ok f)

/-- The value of a key between brackets of which the closing one is given. -/
def flowValue : Nat → TokenKind → Feed → Tree × Step
  | 0, _, f => (.missing, .ok f)
  | fuel + 1, close, f =>
    match f.peek with
    | .error e => (.missing, .error e)
    | .ok t =>
      if t.kind == .value then
        match f.next.peek with
        | .error e => (.missing, .error e)
        | .ok u =>
          if u.kind == .flowEntry || u.kind == close then (.emptyScalar u.start, .ok f.next)
          else node fuel false false f.next
      else (.emptyScalar t.start, .ok f)

/-- The entries of a mapping in braces, from behind the brace or behind an entry. -/
def flowEntries : Nat → (first : Bool) → Mark → Feed → List (Tree × Tree) × Step
  | 0, _, _, f => ([], .ok f)
  | fuel + 1, first, mark, f =>
    match f.peek with
    | .error e => ([], .error e)
    | .ok t =>
      if t.kind == .flowMappingEnd then ([], .ok f.next)
      else if !first && t.kind != .flowEntry then
        ([], .error (problem .noMappingEnd t.start (some (.flowMapping, mark))))
      else
        let f := if first then f else f.next
        match f.peek with
        | .error e => ([], .error e)
        | .ok t =>
          if t.kind == .flowMappingEnd then ([], .ok f.next)
          else
            let (entry, step) := flowEntry fuel t f
            match step with
            | .error e => ([entry], .error e)
            | .ok f =>
              let (entries, step) := flowEntries fuel false mark f
              (entry :: entries, step)

/-- An entry of a mapping in braces, of which the first token is given. A node that is no key has
nothing for its value. -/
def flowEntry : Nat → Token → Feed → (Tree × Tree) × Step
  | 0, _, f => ((.missing, .missing), .ok f)
  | fuel + 1, t, f =>
    if t.kind == .key then
      match f.next.peek with
      | .error e => ((.missing, .missing), .error e)
      | .ok u =>
        let (key, step) : Tree × Step := match u.kind with
          | .value | .flowEntry | .flowMappingEnd => (.emptyScalar u.start, .ok f.next)
          | _ => node fuel false false f.next
        match step with
        | .error e => ((key, .missing), .error e)
        | .ok f =>
          let (value, step) : Tree × Step := flowValue fuel .flowMappingEnd f
          ((key, value), step)
    else
      let (key, step) : Tree × Step := node fuel false false f
      match step with
      | .error e => ((key, .missing), .error e)
      | .ok f =>
        match f.peek with
        | .error e => ((key, .missing), .error e)
        | .ok t => ((key, .emptyScalar t.start), .ok f)

end

/-! ## Documents -/

/-- The handles that need no directive. -/
def standardHandles : List (List Char × List UInt8) :=
  [(['!'], [Tag.mark]), (['!', '!'], Tag.core "")]

/-- The directives at the front. -/
def directives : Nat → Bool → Feed → Step
  | 0, _, f => .ok f
  | fuel + 1, versioned, f => do
    let t ← f.peek
    match t.kind with
    | .version major minor =>
      if versioned then .error (problem .secondVersion t.start none)
      else if major = 1 ∧ (minor = 1 ∨ minor = 2) then directives fuel true f.next
      else .error (problem .otherVersion t.start none)
    | .handle name target =>
      if (f.handles.lookup name).isSome then .error (problem .secondHandle t.start none)
      else directives fuel versioned { f.next with handles := f.handles ++ [(name, target)] }
    | _ => return { f with handles := f.handles ++ standardHandles }

/-- The node that a document holds. One that starts with a mark may hold nothing. -/
def content (fuel : Nat) (marked : Bool) (f : Feed) : Tree × Step :=
  match f.peek with
  | .error e => (.missing, .error e)
  | .ok t =>
    match t.kind, marked with
    | .version _ _, true | .handle _ _, true | .documentStart, true | .documentEnd, true
    | .streamEnd, true => (.emptyScalar t.start, .ok f)
    | _, _ => node fuel true false f

/-- Whether anything but the end of the text comes, marks of documents' ends passed over. -/
def hasMore : List Token → Bool
  | [] => true
  | t :: rest =>
    match t.kind with
    | .documentEnd => hasMore rest
    | .streamEnd => false
    | _ => true

/-- The document whose node is given. -/
def finish (root : Tree) (step : Step) : Document :=
  match step with
  | .error e => ⟨root, some e, false⟩
  | .ok f =>
    match f.peek with
    | .error e => ⟨root, some e, false⟩
    | .ok t =>
      let after := match t.kind with
        | .documentEnd => f.next
        | _ => f
      ⟨root, none, hasMore after.tokens⟩

/-- The first document. -/
def document (f : Feed) : Document :=
  let fuel := 8 * f.tokens.length + 16
  match f.peek with
  | .error e => ⟨.missing, some e, false⟩
  | .ok t =>
    match t.kind with
    | .streamEnd => ⟨.void, none, false⟩
    | .version _ _ | .handle _ _ | .documentStart =>
      match directives fuel false f with
      | .error e => ⟨.missing, some e, false⟩
      | .ok f =>
        match f.peek with
        | .error e => ⟨.missing, some e, false⟩
        | .ok t =>
          if t.kind == .documentStart then
            let (root, step) := content fuel true f.next
            finish root step
          else ⟨.missing, some (problem .noDocumentStart t.start none), false⟩
    | _ =>
      let (root, step) := content fuel false { f with handles := standardHandles }
      finish root step

end Feed

/-- The first document of a text. -/
def Document.ofText (text : List Char) : Document :=
  let (ts, ending) := tokens text
  Feed.document ⟨ts.drop 1, ending, [], []⟩

end AndroidAudit.Yaml
