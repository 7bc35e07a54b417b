/-
Options as text by key.

Keys are compared without regard to ASCII case and kept in lower case. Values given first win over a file:
`mergeMissing` never replaces one.
-/
import PartitionedScan.SortedMap

namespace PartitionedScan

/-- a text with its ASCII capitals in lower case -/
def lowered (s : String) : String :=
  String.ofList (s.toList.map Char.toLower)

/-- options by their key in lower case -/
structure Options where
  entries : SortedMap String
  deriving DecidableEq, Repr

namespace Options

/-! ## Keys -/

def numPartitions : String := "shardscan.num_partitions"
def batchSize : String := "shardscan.batch_size"
def query : String := "shardscan.query"
def uri : String := "shardscan.client.uri"
def host : String := "shardscan.client.host"
def port : String := "shardscan.client.port"
def username : String := "shardscan.client.username"
def password : String := "shardscan.client.password"
def database : String := "shardscan.client.database"
def authType : String := "shardscan.client.auth_type"

/-! ## Operations -/

def empty : Options := ⟨SortedMap.empty⟩

def insert (o : Options) (key value : String) : Options :=
  ⟨o.entries.insert (lowered key) value⟩

def get? (o : Options) (key : String) : Option String :=
  o.entries.get? (lowered key)

/-- every option of `other` that is not set yet -/
def mergeMissing (o other : Options) : Options :=
  ⟨o.entries.mergeMissing other.entries⟩

/-- options set one after another -/
def ofList (entries : List (String × String)) : Options :=
  entries.foldl (fun o e => o.insert e.1 e.2) empty

/-- the options in the order of their keys -/
def toList (o : Options) : List (String × String) :=
  o.entries.entries

/-! ## Laws -/

/-- what is set wins over what is merged -/
theorem get?_mergeMissing (o other : Options) (key : String) :
    (o.mergeMissing other).get? key = (o.get? key).or (other.get? key) :=
  o.entries.get?_mergeMissing other.entries (lowered key)

end Options

end PartitionedScan
