import StackTemplate.Text.Split
import StackTemplate.Value.Basic

/-!
# Pseudo-parameters

References that every template may use without declaring them. Their values
follow from the region; account and stack are those of an example.
-/

namespace StackTemplate.Pseudo

/-- The partition that a region belongs to. -/
def partition (region : String) : String :=
  if Text.startsWith region "cn-" then "aws-cn"
  else if Text.startsWith region "us-gov-" then "aws-us-gov"
  else "aws"

/-- The domain of a region's service addresses. -/
def urlSuffix (region : String) : String :=
  if Text.startsWith region "cn-" then "amazonaws.com.cn" else "amazonaws.com"

/-- The example's account. -/
def accountId : String := "123456789012"

/-- The example's stack. -/
def stackName : String := "teststack"

/-- The identifier of the example's stack. -/
def stackId (region : String) : String :=
  "arn:" ++ partition region ++ ":cloudformation:" ++ region ++ ":" ++ accountId ++ ":stack/" ++
    stackName ++ "/51af3dc0-da77-11e4-872e-1234567db123"

/-- The topic that the example's stack notifies. -/
def notificationTopic (region : String) : String :=
  "arn:" ++ partition region ++ ":sns:" ++ region ++ ":" ++ accountId ++ ":notification"

/-- The value of a pseudo-parameter in a region. The absent value is null. -/
def value? (region name : String) : Option Value :=
  match name with
  | "AWS::Region" => some (.string region)
  | "AWS::Partition" => some (.string (partition region))
  | "AWS::AccountId" => some (.string accountId)
  | "AWS::StackName" => some (.string stackName)
  | "AWS::StackId" => some (.string (stackId region))
  | "AWS::NotificationARNs" => some (.array [.string (notificationTopic region)])
  | "AWS::URLSuffix" => some (.string (urlSuffix region))
  | "AWS::NoValue" => some .null
  | _ => none

end StackTemplate.Pseudo
