import ScMachine.ScIterator3

/-! Iterators over constructions of five elements: an arc, and a second arc that ends in it
(`sc_iterator5.c`). -/
namespace ScMachine.Store

inductive ScIterator5Type where
  | faaaf
  | aafaf
  | fafaf
  | fafaa
  | faaaa
  | aafaa
  deriving DecidableEq, Repr

/-- The parameters of the second arc and of its begin: a type for the arc, and the begin itself
or its type. -/
structure AttrParams where
  arcType : ScType
  beg : ScIteratorParam

/-- The kind of an iterator together with the parameters that fit it: those of the first arc, of
one of the three kinds that walk along a list, and those of the second one. -/
inductive Iterator5Params where
  | faa (p1 : ScAddr) (p2 p3 : ScType) (attr : AttrParams)
  | aaf (p1 p2 : ScType) (p3 : ScAddr) (attr : AttrParams)
  | faf (p1 : ScAddr) (p2 : ScType) (p3 : ScAddr) (attr : AttrParams)

def Iterator5Params.attr : Iterator5Params → AttrParams
  | .faa _ _ _ attr => attr
  | .aaf _ _ _ attr => attr
  | .faf _ _ _ attr => attr

/-- The kind of `it_main`. -/
def Iterator5Params.main : Iterator5Params → Iterator3Params
  | .faa p1 p2 p3 _ => .faa p1 p2 p3
  | .aaf p1 p2 p3 _ => .aaf p1 p2 p3
  | .faf p1 p2 p3 _ => .faf p1 p2 p3

/-- The kind of `it_attr`, once the first arc has been found. -/
def AttrParams.params (attr : AttrParams) (edge : ScAddr) : Iterator3Params :=
  match attr.beg with
  | .addr p5 => .faf p5 attr.arcType edge
  | .type p5 => .aaf p5 attr.arcType edge

/-- `results[i]` is `result`i. -/
structure ScIterator5 where
  params : Iterator5Params
  ctx : ScContext
  main : ScIterator3
  attr : Option ScIterator3
  result0 : ScAddr
  result1 : ScAddr
  result2 : ScAddr
  result3 : ScAddr
  result4 : ScAddr

def ScIterator5.results (it : ScIterator5) : ScAddr × ScAddr × ScAddr × ScAddr × ScAddr :=
  (it.result0, it.result1, it.result2, it.result3, it.result4)

/-- The check of the parameters against the kind. -/
def Iterator5Params.ofType (type : ScIterator5Type) (p1 p2 p3 p4 p5 : ScIteratorParam) :
    Option Iterator5Params :=
  match type, p1, p2, p3, p4, p5 with
  | .faaaf, .addr p1, .type p2, .type p3, .type p4, .addr p5 => some (.faa p1 p2 p3 ⟨p4, .addr p5⟩)
  | .aafaf, .type p1, .type p2, .addr p3, .type p4, .addr p5 => some (.aaf p1 p2 p3 ⟨p4, .addr p5⟩)
  | .fafaf, .addr p1, .type p2, .addr p3, .type p4, .addr p5 => some (.faf p1 p2 p3 ⟨p4, .addr p5⟩)
  | .fafaa, .addr p1, .type p2, .addr p3, .type p4, .type p5 => some (.faf p1 p2 p3 ⟨p4, .type p5⟩)
  | .faaaa, .addr p1, .type p2, .type p3, .type p4, .type p5 => some (.faa p1 p2 p3 ⟨p4, .type p5⟩)
  | .aafaa, .type p1, .type p2, .addr p3, .type p4, .type p5 => some (.aaf p1 p2 p3 ⟨p4, .type p5⟩)
  | _, _, _, _, _, _ => none

/-- The results that hold fixed parameters are set here, the others are empty. -/
def Iterator5Params.start (params : Iterator5Params) (ctx : ScContext) (main : ScIterator3) :
    ScIterator5 :=
  let result4 := match params.attr.beg with
    | .addr p5 => p5
    | .type _ => ScAddr.empty
  match params with
  | .faa p1 _ _ _ =>
    ⟨params, ctx, main, none, p1, ScAddr.empty, ScAddr.empty, ScAddr.empty, result4⟩
  | .aaf _ _ p3 _ =>
    ⟨params, ctx, main, none, ScAddr.empty, ScAddr.empty, p3, ScAddr.empty, result4⟩
  | .faf p1 _ p3 _ => ⟨params, ctx, main, none, p1, ScAddr.empty, p3, ScAddr.empty, result4⟩

def Iterator5Params.create (env : ScEnv) (ctx : ScContext) (params : Iterator5Params) :
    StoreM (Option ScIterator5) := do
  match ← params.main.create env ctx with
  | none => return none
  | some main => return some (params.start ctx main)

def scIterator5New (env : ScEnv) (ctx : ScContext) (type : ScIterator5Type)
    (p1 p2 p3 p4 p5 : ScIteratorParam) : StoreM (Option ScIterator5) :=
  match Iterator5Params.ofType type p1 p2 p3 p4 p5 with
  | none => return none
  | some params => params.create env ctx

def scIterator5FAAAFNew (env : ScEnv) (ctx : ScContext) (p1 : ScAddr) (p2 p3 p4 : ScType)
    (p5 : ScAddr) : StoreM (Option ScIterator5) :=
  scIterator5New env ctx .faaaf (.addr p1) (.type p2) (.type p3) (.type p4) (.addr p5)

def scIterator5AAFAFNew (env : ScEnv) (ctx : ScContext) (p1 p2 : ScType) (p3 : ScAddr)
    (p4 : ScType) (p5 : ScAddr) : StoreM (Option ScIterator5) :=
  scIterator5New env ctx .aafaf (.type p1) (.type p2) (.addr p3) (.type p4) (.addr p5)

def scIterator5FAFAFNew (env : ScEnv) (ctx : ScContext) (p1 : ScAddr) (p2 : ScType) (p3 : ScAddr)
    (p4 : ScType) (p5 : ScAddr) : StoreM (Option ScIterator5) :=
  scIterator5New env ctx .fafaf (.addr p1) (.type p2) (.addr p3) (.type p4) (.addr p5)

def scIterator5FAFAANew (env : ScEnv) (ctx : ScContext) (p1 : ScAddr) (p2 : ScType) (p3 : ScAddr)
    (p4 p5 : ScType) : StoreM (Option ScIterator5) :=
  scIterator5New env ctx .fafaa (.addr p1) (.type p2) (.addr p3) (.type p4) (.type p5)

def scIterator5FAAAANew (env : ScEnv) (ctx : ScContext) (p1 : ScAddr) (p2 p3 p4 p5 : ScType) :
    StoreM (Option ScIterator5) :=
  scIterator5New env ctx .faaaa (.addr p1) (.type p2) (.type p3) (.type p4) (.type p5)

def scIterator5AAFAANew (env : ScEnv) (ctx : ScContext) (p1 p2 : ScType) (p3 : ScAddr)
    (p4 p5 : ScType) : StoreM (Option ScIterator5) :=
  scIterator5New env ctx .aafaa (.type p1) (.type p2) (.addr p3) (.type p4) (.type p5)

def freeAttr (env : ScEnv) (attr : Option ScIterator3) : StoreM Unit :=
  match attr with
  | some attr => scIterator3Free env attr
  | none => pure ()

def scIterator5Free (env : ScEnv) (it : ScIterator5) : StoreM Unit := do
  freeAttr env it.attr
  scIterator3Free env it.main

/-- The results that do not hold fixed parameters are emptied at the start of `next`. -/
def ScIterator5.clearResults (it : ScIterator5) : ScIterator5 :=
  { it with
    result0 := match it.params with
      | .aaf _ _ _ _ => ScAddr.empty
      | _ => it.result0
    result1 := ScAddr.empty
    result2 := match it.params with
      | .faa _ _ _ _ => ScAddr.empty
      | _ => it.result2
    result3 := ScAddr.empty
    result4 := match it.params.attr.beg with
      | .addr _ => it.result4
      | .type _ => ScAddr.empty }

/-- The same results are taken from the two iterators when both stand on an arc. -/
def ScIterator5.storeResults (it : ScIterator5) (attr : ScIterator3) : ScIterator5 :=
  { it with
    attr := some attr
    result0 := match it.params with
      | .aaf _ _ _ _ => it.main.result0
      | _ => it.result0
    result1 := it.main.result1
    result2 := match it.params with
      | .faa _ _ _ _ => it.main.result2
      | _ => it.result2
    result3 := attr.result1
    result4 := match it.params.attr.beg with
      | .addr _ => it.result4
      | .type _ => attr.result0 }

/-- `while (it->it_attr == null_ptr || !sc_iterator3_next(it->it_attr))`, entered with
`it_attr == null_ptr`. -/
def attrLoop (env : ScEnv) (unset : ScAddr → ScType) :
    ℕ → ScIterator5 → StoreM (Bool × ScIterator5)
  | 0, _ => throw .diverge
  | fuel + 1, it => do
    let (more, main) ← scIterator3Next env unset it.main
    let it := { it with main := main }
    if !more then return (false, it)
    match ← (it.params.attr.params main.result1).create env it.ctx with
    | none => return (false, it)
    | some attr =>
      let (found, attr) ← scIterator3Next env unset attr
      if found then return (true, it.storeResults attr)
      scIterator3Free env attr
      attrLoop env unset fuel it

/-- The six functions differ in the results they write and in the kind of `it_attr`. -/
def scIterator5Next (env : ScEnv) (unset : ScAddr → ScType) (it : ScIterator5) :
    StoreM (Bool × ScIterator5) := do
  let it := it.clearResults
  match it.attr with
  | none => attrLoop env unset walkFuel it
  | some attr =>
    let (found, attr) ← scIterator3Next env unset attr
    if found then return (true, it.storeResults attr)
    scIterator3Free env attr
    attrLoop env unset walkFuel { it with attr := none }

end ScMachine.Store
