import ScMachine.ScTemplate

/-! The types that an scs text can name (`sc_type.hpp`, `sc_type.cpp`, `scs_types.cpp`). -/
namespace ScMachine.Store

def scTypeArcPos : ScType := 0x80
def scTypeArcNeg : ScType := 0x100
def scTypeArcFuz : ScType := 0x200
def scTypeArcTemp : ScType := 0x400
def scTypeArcPerm : ScType := 0x800
def scTypeNodeTuple : ScType := 0x80
def scTypeNodeStruct : ScType := 0x100
def scTypeNodeRole : ScType := 0x200
def scTypeNodeNoRole : ScType := 0x400
def scTypeNodeClass : ScType := 0x800
def scTypeNodeAbstract : ScType := 0x1000
def scTypeNodeMaterial : ScType := 0x2000

def scTypePositivityMask : ScType := scTypeArcPos ||| scTypeArcNeg ||| scTypeArcFuz
def scTypePermanencyMask : ScType := scTypeArcPerm ||| scTypeArcTemp
def scTypeNodeMask : ScType :=
  scTypeNodeTuple ||| scTypeNodeStruct ||| scTypeNodeRole ||| scTypeNodeNoRole |||
    scTypeNodeClass ||| scTypeNodeAbstract ||| scTypeNodeMaterial

namespace ScType

def unknown : ScType := 0
def edgeUCommon : ScType := scTypeEdgeCommon
def edgeDCommon : ScType := scTypeArcCommon
def edgeUCommonConst : ScType := scTypeEdgeCommon ||| scTypeConst
def edgeDCommonConst : ScType := scTypeArcCommon ||| scTypeConst
def edgeUCommonVar : ScType := scTypeEdgeCommon ||| scTypeVar
def edgeDCommonVar : ScType := scTypeArcCommon ||| scTypeVar
def edgeAccess : ScType := scTypeArcAccess

/-- `ScType::EdgeAccess{Const,Var}{Pos,Neg,Fuz}{Perm,Temp}`. -/
def edgeAccessOf (constancy positivity permanency : ScType) : ScType :=
  constancy ||| scTypeArcAccess ||| permanency ||| positivity

def edgeAccessConstPosPerm : ScType := edgeAccessOf scTypeConst scTypeArcPos scTypeArcPerm

def const : ScType := scTypeConst
def var : ScType := scTypeVar
def node : ScType := scTypeNode
def link : ScType := scTypeLink
def nodeConst : ScType := scTypeNode ||| scTypeConst
def nodeVar : ScType := scTypeNode ||| scTypeVar
def linkConst : ScType := scTypeLink ||| scTypeConst
def nodeConstStruct : ScType := scTypeNode ||| scTypeConst ||| scTypeNodeStruct

/-- The lambda `CheckMask` of `CanExtendTo`: the type has no bit outside of the mask. -/
def checkMask (extType mask : ScType) : Bool := !(extType != extType &&& mask)

/-- The comparison that `CanExtendTo` makes for several groups of bits. -/
def keepsGroup (t extType mask : ScType) : Bool :=
  t &&& mask == 0 || t &&& mask == extType &&& mask

def canExtendTo (t extType : ScType) : Bool :=
  if !keepsGroup t extType scTypeElementMask then false
  else if !keepsGroup t extType scTypeConstancyMask then false
  else if t.isLink then checkMask extType (scTypeConstancyMask ||| scTypeLink)
  else if t.isNode then
    checkMask extType (scTypeConstancyMask ||| scTypeNodeMask ||| scTypeNode) &&
      keepsGroup t extType scTypeNodeMask
  else if t.isEdge then
    if !checkMask extType (scTypeArcCommon ||| scTypeConstancyMask) then false
    else if !checkMask extType (scTypeArcAccess ||| scTypeConstancyMask ||| scTypePositivityMask |||
        scTypePermanencyMask) then false
    else if !checkMask extType scTypeEdgeCommon then false
    else keepsGroup t extType scTypePermanencyMask && keepsGroup t extType scTypePositivityMask
  else true

end ScType

end ScMachine.Store

namespace ScMachine.Scs
open ScMachine.Store

/-- `ms_connectorToType`. -/
def connectorToType : List (String × ScType) :=
  let access (positivity permanency : ScType) (c rc v rv : String) : List (String × ScType) :=
    [(c, ScType.edgeAccessOf scTypeConst positivity permanency),
      (rc, ScType.edgeAccessOf scTypeConst positivity permanency),
      (v, ScType.edgeAccessOf scTypeVar positivity permanency),
      (rv, ScType.edgeAccessOf scTypeVar positivity permanency)]
  [(">", ScType.edgeDCommon), ("<", ScType.edgeDCommon), ("<>", ScType.edgeUCommon),
    ("..>", ScType.edgeAccess), ("<..", ScType.edgeAccess),
    ("<=>", ScType.edgeUCommonConst), ("_<=>", ScType.edgeUCommonVar),
    ("=>", ScType.edgeDCommonConst), ("<=", ScType.edgeDCommonConst),
    ("_=>", ScType.edgeDCommonVar), ("_<=", ScType.edgeDCommonVar)] ++
  access scTypeArcPos scTypeArcPerm "->" "<-" "_->" "_<-" ++
  access scTypeArcNeg scTypeArcPerm "-|>" "<|-" "_-|>" "_<|-" ++
  access scTypeArcFuz scTypeArcPerm "-/>" "</-" "_-/>" "_</-" ++
  access scTypeArcPos scTypeArcTemp "~>" "<~" "_~>" "_<~" ++
  access scTypeArcNeg scTypeArcTemp "~|>" "<|~" "_~|>" "_<|~" ++
  access scTypeArcFuz scTypeArcTemp "~/>" "</~" "_~/>" "_</~"

/-- `ms_keynodeToType`. -/
def keynodeToType : List (String × ScType) :=
  [("sc_node", ScType.node), ("sc_link", ScType.link),
    ("sc_arc_common", ScType.edgeDCommon), ("sc_edge_dcommon", ScType.edgeDCommon),
    ("sc_edge", ScType.edgeUCommon), ("sc_edge_ucommon", ScType.edgeUCommon),
    ("sc_arc_main", ScType.edgeAccessConstPosPerm), ("sc_edge_main", ScType.edgeAccessConstPosPerm),
    ("sc_arc_access", ScType.edgeAccess), ("sc_edge_access", ScType.edgeAccess),
    ("sc_node_tuple", scTypeNode ||| scTypeNodeTuple),
    ("sc_node_struct", scTypeNode ||| scTypeNodeStruct),
    ("sc_node_role_relation", scTypeNode ||| scTypeNodeRole),
    ("sc_node_norole_relation", scTypeNode ||| scTypeNodeNoRole),
    ("sc_node_class", scTypeNode ||| scTypeNodeClass),
    ("sc_node_abstract", scTypeNode ||| scTypeNodeAbstract),
    ("sc_node_material", scTypeNode ||| scTypeNodeMaterial),
    ("sc_node_not_relation", scTypeNode ||| scTypeNodeClass),
    ("sc_node_not_binary_tuple", scTypeNode ||| scTypeNodeTuple)]

/-- `ms_reversedConnectors`. -/
def reversedConnectors : List String :=
  ["<", "<..", "<=", "_<=", "<-", "_<-", "<|-", "_<|-", "</-", "_</-", "<~", "_<~", "<|~", "_<|~",
    "</~", "_</~"]

def getConnectorType (connectorAlias : String) : ScType :=
  (connectorToType.lookup connectorAlias).getD ScType.unknown

def getKeynodeType (keynodeAlias : String) : ScType :=
  (keynodeToType.lookup keynodeAlias).getD ScType.unknown

def isConnectorReversed (connectorAlias : String) : Bool :=
  reversedConnectors.contains connectorAlias

/-- The first character after the dots, or the last one, is not an underscore. -/
def isConst (idtf : String) : Bool :=
  let rec walk : List Char → Bool
    | [] => true
    | [c] => c != '_'
    | c :: cs => if c = '.' then walk cs else c != '_'
  walk idtf.toList

def isKeynodeType (idtf : String) : Bool := (keynodeToType.lookup idtf).isSome

def isUnnamed (idtf : String) : Bool := idtf = "..."

end ScMachine.Scs
