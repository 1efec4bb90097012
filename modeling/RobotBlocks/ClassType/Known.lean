/-!
# Known classes

The classes that programs refer to by their simple name, listed by package. An inner class is listed
as `Outer.Inner`.
-/

set_option autoImplicit false

namespace RobotBlocks

/-- The simple names that stand for a class, listed by package. -/
def knownPackages : List (String × List String) :=
  [("android.graphics",
      ["Color"]),
   ("com.qualcomm.ftccommon",
      ["SoundPlayer"]),
   ("com.qualcomm.hardware.bosch",
      ["BNO055IMU", "BNO055IMU.AccelerationIntegrator", "BNO055IMU.AccelUnit",
       "BNO055IMU.Parameters", "BNO055IMU.SensorMode", "BNO055IMU.SystemStatus",
       "JustLoggingAccelerationIntegrator"]),
   ("com.qualcomm.hardware.modernrobotics",
      ["ModernRoboticsI2cCompassSensor", "ModernRoboticsI2cGyro",
       "ModernRoboticsI2cGyro.HeadingMode", "ModernRoboticsI2cRangeSensor"]),
   ("com.qualcomm.hardware.rev",
      ["RevBlinkinLedDriver", "RevBlinkinLedDriver.BlinkinPattern"]),
   ("com.qualcomm.robotcore.eventloop.opmode",
      ["Autonomous", "Disabled", "LinearOpMode", "TeleOp"]),
   ("com.qualcomm.robotcore.hardware",
      ["AccelerationSensor", "AnalogInput", "AnalogOutput", "CRServo", "ColorSensor",
       "CompassSensor", "CompassSensor.CompassMode", "DcMotor", "DcMotor.RunMode",
       "DcMotor.ZeroPowerBehavior", "DcMotorEx", "DcMotorSimple", "DcMotorSimple.Direction",
       "DigitalChannel", "DigitalChannel.Mode", "DistanceSensor", "GyroSensor", "Gyroscope",
       "I2cAddr", "I2cAddrConfig", "I2cAddressableDevice", "IrSeekerSensor",
       "IrSeekerSensor.Mode", "LED", "Light", "LightSensor", "MotorControlAlgorithm",
       "NormalizedColorSensor", "NormalizedRGBA", "OpticalDistanceSensor", "OrientationSensor",
       "PIDCoefficients", "PIDFCoefficients", "PWMOutput", "Servo", "Servo.Direction",
       "ServoController", "ServoController.PwmStatus", "SwitchableLight", "TouchSensor",
       "UltrasonicSensor", "VoltageSensor"]),
   ("com.qualcomm.robotcore.util",
      ["ElapsedTime", "ElapsedTime.Resolution", "Range", "ReadWriteFile", "RobotLog"]),
   ("java.util",
      ["ArrayList", "Collections", "List"]),
   ("org.firstinspires.ftc.robotcore.external",
      ["ClassFactory", "JavaUtil", "Telemetry"]),
   ("org.firstinspires.ftc.robotcore.external.android",
      ["AndroidAccelerometer", "AndroidGyroscope", "AndroidOrientation", "AndroidSoundPool",
       "AndroidTextToSpeech"]),
   ("org.firstinspires.ftc.robotcore.external.hardware.camera",
      ["CameraName", "WebcamName"]),
   ("org.firstinspires.ftc.robotcore.external.matrices",
      ["MatrixF", "OpenGLMatrix", "VectorF"]),
   ("org.firstinspires.ftc.robotcore.external.navigation",
      ["Acceleration", "AngleUnit", "AngularVelocity", "AxesOrder", "AxesReference", "Axis",
       "CurrentUnit", "DistanceUnit", "MagneticFlux", "Orientation", "Position", "Quaternion",
       "Temperature", "TempUnit", "UnnormalizedAngleUnit", "Velocity", "VuforiaBase",
       "VuforiaCurrentGame", "VuforiaLocalizer", "VuforiaLocalizer.CameraDirection",
       "VuforiaLocalizer.Parameters", "VuforiaTrackable", "VuforiaTrackableDefaultListener",
       "VuforiaTrackables"]),
   ("org.firstinspires.ftc.robotcore.internal.system",
      ["AppUtil"]),
   ("org.firstinspires.ftc.robotcore.external.tfod",
      ["Recognition", "TfodBase", "TfodCurrentGame"])]

/-- The full name of the class that a simple name stands for. -/
def knownClass? (simple : String) : Option String :=
  (knownPackages.find? (fun entry => entry.2.contains simple)).map
    (fun entry => entry.1 ++ "." ++ simple)

end RobotBlocks
