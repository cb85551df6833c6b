/-!
The keywords of the filter language. A keyword is one or more words, and its text has one blank
between them. Keywords are not reserved: each of them also is an identifier where one may stand.
-/

namespace FilterQuery

inductive Keyword where
  | select | distinct | where_ | groupBy | orderBy | offset | limit | asc | desc
  | and | or | not | like | notLike | in_ | notIn | isNull | isNotNull
  | date | timestamp | true | false
  deriving DecidableEq, Repr

namespace Keyword

def words : Keyword → List String
  | .select => ["SELECT"]
  | .distinct => ["DISTINCT"]
  | .where_ => ["WHERE"]
  | .groupBy => ["GROUP", "BY"]
  | .orderBy => ["ORDER", "BY"]
  | .offset => ["OFFSET"]
  | .limit => ["LIMIT"]
  | .asc => ["ASC"]
  | .desc => ["DESC"]
  | .and => ["AND"]
  | .or => ["OR"]
  | .not => ["NOT"]
  | .like => ["LIKE"]
  | .notLike => ["NOT", "LIKE"]
  | .in_ => ["IN"]
  | .notIn => ["NOT", "IN"]
  | .isNull => ["IS", "NULL"]
  | .isNotNull => ["IS", "NOT", "NULL"]
  | .date => ["DATE"]
  | .timestamp => ["TIMESTAMP"]
  | .true => ["true"]
  | .false => ["false"]

def text (k : Keyword) : String :=
  " ".intercalate k.words

end Keyword

end FilterQuery
